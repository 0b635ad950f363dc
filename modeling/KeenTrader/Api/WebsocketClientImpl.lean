import KeenTrader.Library.Runs
import KeenTrader.Engine.Constant
import KeenTrader.Exchange.WebsocketClient

/-!
# The implementation of the websocket client

`WebsocketClientImpl` under the events that the socket library delivers to it. An attempt to
connect ends in one of `opened` and `failed`, a connection closes at most once, and arming the
reconnect timer again cancels the wait before. Connections have numbers; `m_hdl` keeps the one
that was opened last. Calls are kept together with the value of `m_stopped` when they are made.
-/

namespace KeenTrader.Api

open Runs KeenTrader.Engine

/-- What the client does that others notice: an attempt to connect, a ping, and the calls of the
object it belongs to. -/
inductive Call where
  | attempt
  | ping
  | onConnected
  | onDisconnected
  | onText (text : AString)
  deriving DecidableEq

structure WebsocketClientImpl where
  stopped : Bool := false
  reconnectTimer : Bool := false
  pingTimer : Bool := false
  connecting : List ℕ := []
  opened : List ℕ := []
  closing : List ℕ := []
  hdl : Option ℕ := none
  attempts : ℕ := 0
  calls : List (Bool × Call) := []
  deriving DecidableEq

namespace WebsocketClientImpl

def emit (s : WebsocketClientImpl) (c : Call) : WebsocketClientImpl :=
  { s with calls := s.calls ++ [(s.stopped, c)] }

/-- `ok` tells that the connection could be initialised. -/
def connect (s : WebsocketClientImpl) (ok : Bool) : WebsocketClientImpl :=
  if s.stopped then s
  else if ok then
    { s with connecting := s.connecting ++ [s.attempts], attempts := s.attempts + 1 }.emit .attempt
  else s

def startPing (s : WebsocketClientImpl) : WebsocketClientImpl :=
  if s.stopped then s else { s with pingTimer := true }

def handleReconnect (s : WebsocketClientImpl) : WebsocketClientImpl :=
  if s.stopped then s else { s with reconnectTimer := true }

/-- `m_hdl.lock()` finds a connection. -/
def alive (s : WebsocketClientImpl) : Bool := s.hdl.any (· ∈ s.opened ++ s.closing)

/-- `WebsocketClient::on_fail` reconnects, and nothing overrides it. -/
def onFail (s : WebsocketClientImpl) : WebsocketClientImpl := s.handleReconnect

def onOpen (s : WebsocketClientImpl) (id : ℕ) : WebsocketClientImpl :=
  ({ s with hdl := some id }.startPing).emit .onConnected

def onMessage (s : WebsocketClientImpl) (text : AString) : WebsocketClientImpl :=
  s.emit (.onText text)

def onClose (s : WebsocketClientImpl) : WebsocketClientImpl :=
  let s := s.emit .onDisconnected
  if s.stopped then s else s.handleReconnect

/-- `handle_reconnect` tests the flag once more. -/
theorem onClose_eq (s : WebsocketClientImpl) :
    s.onClose = (s.emit .onDisconnected).handleReconnect := by
  unfold onClose handleReconnect
  simp only
  split <;> rfl

def start (s : WebsocketClientImpl) (ok : Bool) : WebsocketClientImpl := s.connect ok

/-- The connection of `m_hdl` is closed, where it is open. The timers are left alone. -/
def stop (s : WebsocketClientImpl) : WebsocketClientImpl :=
  { s with
    stopped := true
    opened := s.opened.filter (s.hdl ≠ some ·)
    closing := s.closing ++ s.opened.filter (s.hdl = some ·) }

inductive Event where
  | stop
  | opened (id : ℕ)
  | failed (id : ℕ)
  | closed (id : ℕ)
  | message (id : ℕ) (text : AString)
  | reconnectTimer (ok : Bool)
  | pingTimer
  deriving DecidableEq

/-- Events of connections that are not there, and of timers that are not armed, do not come. -/
def handle (s : WebsocketClientImpl) : Event → WebsocketClientImpl
  | .stop => s.stop
  | .opened id =>
    if id ∈ s.connecting then
      { s with connecting := s.connecting.erase id, opened := s.opened ++ [id] }.onOpen id
    else s
  | .failed id =>
    if id ∈ s.connecting then { s with connecting := s.connecting.erase id }.onFail else s
  | .closed id =>
    if id ∈ s.opened ++ s.closing then
      { s with opened := s.opened.erase id, closing := s.closing.erase id }.onClose
    else s
  | .message id text => if id ∈ s.opened ++ s.closing then s.onMessage text else s
  | .reconnectTimer ok =>
    if s.reconnectTimer then { s with reconnectTimer := false }.connect ok else s
  | .pingTimer =>
    if s.pingTimer then
      let s := { s with pingTimer := false }
      (if s.alive then s.emit .ping else s).startPing
    else s

inductive Step where
  | start (ok : Bool)
  | event (e : Event)
  deriving DecidableEq

def step (s : WebsocketClientImpl) : Step → WebsocketClientImpl
  | .start ok => s.start ok
  | .event e => s.handle e

/-! ## After a stop -/

/-- After `stop` there is no attempt to connect and neither `on_connected` nor `on_text`, and each
connection that is left is being closed, so that none is left when that has been reported. -/
structure Quiet (s : WebsocketClientImpl) : Prop where
  calls : ∀ c, (true, c) ∈ s.calls → c = .onDisconnected ∨ c = .ping
  closing : s.stopped = true → s.opened = []

/-- An attempt in flight does not open after `stop`, no message comes after it, and when it is
called no connection is open but the one that was opened last. -/
def InTime (s : WebsocketClientImpl) : Step → Prop
  | .event (.opened id) => id ∈ s.connecting → s.stopped = false
  | .event (.message id _) => id ∈ s.opened ++ s.closing → s.stopped = false
  | .event .stop => ∀ id ∈ s.opened, s.hdl = some id
  | _ => True

variable {s t : WebsocketClientImpl}

/-- A call that is made before the stop, or is one of the two that may follow it. -/
theorem quiet_emit_iff (c : Call) : (s.emit c).Quiet ↔
    s.Quiet ∧ (s.stopped = true → c = .onDisconnected ∨ c = .ping) := by
  constructor
  · intro quiet
    refine ⟨⟨fun c' mem => quiet.calls c' (by simp [emit, mem]), quiet.closing⟩, fun stopped => ?_⟩
    exact quiet.calls c (by simp [emit, stopped])
  · rintro ⟨quiet, allowed⟩
    refine ⟨fun c' mem => ?_, quiet.closing⟩
    rcases List.mem_append.mp mem with mem | mem
    · exact quiet.calls c' mem
    · obtain ⟨stopped, same⟩ := Prod.mk.inj (List.mem_singleton.mp mem)
      rw [same]
      exact allowed stopped.symm

theorem Quiet.of_same (quiet : s.Quiet) (calls : t.calls = s.calls)
    (stopped : t.stopped = s.stopped) (opened : s.opened = [] → t.opened = []) : t.Quiet where
  calls := by
    rw [calls]
    exact quiet.calls
  closing := by
    rw [stopped]
    exact fun after => opened (quiet.closing after)

theorem Quiet.connect (quiet : s.Quiet) (ok : Bool) : (s.connect ok).Quiet := by
  unfold WebsocketClientImpl.connect
  split
  · exact quiet
  · rename_i running
    split
    · refine (quiet_emit_iff _).mpr ⟨quiet.of_same rfl rfl id, fun stopped => ?_⟩
      exact absurd stopped running
    · exact quiet

theorem Quiet.startPing (quiet : s.Quiet) : s.startPing.Quiet := by
  unfold WebsocketClientImpl.startPing
  split
  · exact quiet
  · exact quiet.of_same rfl rfl id

theorem Quiet.handleReconnect (quiet : s.Quiet) : s.handleReconnect.Quiet := by
  unfold WebsocketClientImpl.handleReconnect
  split
  · exact quiet
  · exact quiet.of_same rfl rfl id

theorem Quiet.onClose (quiet : s.Quiet) : s.onClose.Quiet := by
  have told : (s.emit .onDisconnected).Quiet :=
    (quiet_emit_iff _).mpr ⟨quiet, fun _ => .inl rfl⟩
  rw [onClose_eq]
  exact told.handleReconnect

theorem Quiet.stop_iff (quiet : s.Quiet) : s.stop.Quiet ↔ ∀ id ∈ s.opened, s.hdl = some id := by
  constructor
  · intro after id mem
    have none := after.closing rfl
    have gone := List.filter_eq_nil_iff.mp none id mem
    simpa using gone
  · intro last
    refine ⟨quiet.calls, fun _ => List.filter_eq_nil_iff.mpr fun id mem => ?_⟩
    simp [last id mem]

theorem Quiet.open_iff (quiet : s.Quiet) {id : ℕ} (pending : id ∈ s.connecting) :
    (s.handle (.opened id)).Quiet ↔ s.stopped = false := by
  simp only [handle, if_pos pending, onOpen, quiet_emit_iff, WebsocketClientImpl.startPing]
  cases stopped : s.stopped with
  | true => simp
  | false =>
    simp only [Bool.false_eq_true, if_false, false_imp_iff, and_true, iff_true]
    exact ⟨quiet.calls, fun after => by simp at after⟩

theorem Quiet.message_iff (quiet : s.Quiet) {id : ℕ} (there : id ∈ s.opened ++ s.closing)
    (text : AString) : (s.handle (.message id text)).Quiet ↔ s.stopped = false := by
  simp only [handle, if_pos there, onMessage, quiet_emit_iff]
  cases stopped : s.stopped <;> simp [quiet]

/-- A step keeps the stopped client quiet exactly if it comes in time. -/
theorem Quiet.step_iff (quiet : s.Quiet) (l : Step) : (s.step l).Quiet ↔ s.InTime l := by
  rcases l with ok | ⟨_ | id | id | id | ⟨id, text⟩ | ok | _⟩
  · exact iff_of_true (quiet.connect ok) trivial
  · exact quiet.stop_iff
  · by_cases pending : id ∈ s.connecting
    · exact (quiet.open_iff pending).trans ⟨fun running _ => running, fun ready => ready pending⟩
    · simp [step, handle, InTime, pending, quiet]
  · refine iff_of_true ?_ trivial
    simp only [step, handle]
    split
    · exact (quiet.of_same (t := { s with connecting := s.connecting.erase id }) rfl rfl
        fun none => none).handleReconnect
    · exact quiet
  · refine iff_of_true ?_ trivial
    simp only [step, handle]
    split
    · refine Quiet.onClose (quiet.of_same rfl rfl fun none => ?_)
      simp [none]
    · exact quiet
  · by_cases there : id ∈ s.opened ++ s.closing
    · exact (quiet.message_iff there text).trans
        ⟨fun running _ => running, fun ready => ready there⟩
    · simp only [step, handle, InTime, if_neg there]
      exact iff_of_true quiet fun mem => absurd mem there
  · refine iff_of_true ?_ trivial
    simp only [step, handle]
    split
    · have unarmed : ({ s with reconnectTimer := false } : WebsocketClientImpl).Quiet :=
        quiet.of_same rfl rfl fun none => none
      exact unarmed.connect ok
    · exact quiet
  · refine iff_of_true ?_ trivial
    simp only [step, handle]
    split
    · have unarmed : ({ s with pingTimer := false } : WebsocketClientImpl).Quiet :=
        quiet.of_same rfl rfl fun none => none
      refine Quiet.startPing ?_
      split
      · exact (quiet_emit_iff _).mpr ⟨unarmed, fun _ => .inr rfl⟩
      · exact unarmed
    · exact quiet

/-- A stopped client is quiet in exactly those runs whose events all come in time. -/
theorem quiet_iff_inTime (steps : List Step) :
    Always step Quiet {} steps ↔ Meets step InTime {} steps := by
  refine always_iff_meets (fun s l quiet => quiet.step_iff l) ?_
  constructor <;> simp

/-- A client that is stopped while it connects reports the connection, and keeps it open. -/
theorem opened_after_stop :
    ¬ ∀ steps, Always step Quiet {} steps := by
  intro all
  have quiet := (all [.start true, .event .stop, .event (.opened 0)]).last
  exact absurd (quiet.calls .onConnected (by decide)) (by decide)

/-! ## One connection at a time -/

/-- The attempts in flight, the connections that are not closed, and the armed reconnect timer. -/
def load (s : WebsocketClientImpl) : ℕ :=
  s.connecting.length + s.opened.length + s.closing.length + s.reconnectTimer.toNat

@[simp] theorem load_emit (s : WebsocketClientImpl) (c : Call) : (s.emit c).load = s.load := rfl

@[simp] theorem load_startPing (s : WebsocketClientImpl) : s.startPing.load = s.load := by
  unfold startPing
  split <;> rfl

@[simp] theorem load_stop (s : WebsocketClientImpl) : s.stop.load = s.load := by
  have parts := List.length_eq_length_filter_add (l := s.opened) fun id => decide (s.hdl = some id)
  simp only [load, stop, List.length_append, ne_eq, decide_not]
  omega

/-- Connecting and waiting to connect each add one at most. -/
theorem load_connect_le (s : WebsocketClientImpl) (ok : Bool) :
    (s.connect ok).load ≤ s.load + 1 := by
  unfold connect
  split
  · omega
  · split
    · rw [load_emit]
      simp only [load, List.length_append, List.length_singleton]
      omega
    · omega

theorem load_handleReconnect_le (s : WebsocketClientImpl) :
    s.handleReconnect.load ≤ s.load + 1 := by
  unfold handleReconnect
  split
  · omega
  · simp only [load, Bool.toNat_true]
    omega

/-- An attempt that ends leaves the attempts in flight. -/
theorem load_attempt {id : ℕ} (pending : id ∈ s.connecting) :
    ({ s with connecting := s.connecting.erase id } : WebsocketClientImpl).load + 1 = s.load := by
  have shorter := List.length_erase_add_one pending
  simp only [load]
  omega

/-- A connection that is closed is no longer counted. -/
theorem load_closed_lt {id : ℕ} (there : id ∈ s.opened ++ s.closing) :
    ({ s with opened := s.opened.erase id, closing := s.closing.erase id } :
      WebsocketClientImpl).load < s.load := by
  have fewer := List.length_erase_le (a := id) (l := s.opened)
  have fewer' := List.length_erase_le (a := id) (l := s.closing)
  simp only [load]
  rcases List.mem_append.mp there with mem | mem
  · have shorter := List.length_erase_add_one mem
    omega
  · have shorter := List.length_erase_add_one mem
    omega

theorem load_onClose_le (s : WebsocketClientImpl) : s.onClose.load ≤ s.load + 1 := by
  rw [onClose_eq]
  exact load_handleReconnect_le _

/-- Every event replaces what it ends by one thing at most. -/
theorem load_handle_le (s : WebsocketClientImpl) (e : Event) : (s.handle e).load ≤ s.load := by
  cases e with
  | stop => simp [handle]
  | opened id =>
    simp only [handle]
    split
    · rename_i pending
      have left := load_attempt pending
      rw [onOpen, load_emit, load_startPing]
      simp only [load, List.length_append, List.length_singleton] at left ⊢
      omega
    · exact le_rfl
  | failed id =>
    simp only [handle]
    split
    · rename_i pending
      have left := load_attempt pending
      have waiting := load_handleReconnect_le { s with connecting := s.connecting.erase id }
      unfold onFail
      omega
    · exact le_rfl
  | closed id =>
    simp only [handle]
    split
    · rename_i there
      exact (load_onClose_le _).trans (load_closed_lt there)
    · exact le_rfl
  | message id text =>
    simp only [handle]
    split
    · simp [onMessage]
    · exact le_rfl
  | reconnectTimer ok =>
    simp only [handle]
    split
    · rename_i armed
      have next := load_connect_le { s with reconnectTimer := false } ok
      simp only [load, armed, Bool.toNat_true, Bool.toNat_false] at next ⊢
      omega
    · exact le_rfl
  | pingTimer =>
    simp only [handle]
    split
    · rw [load_startPing]
      split <;> simp [load, emit]
    · exact le_rfl

/-- A client that is started once has one connection at most, counting the attempts in flight and
the one it waits to make. -/
theorem started_once_load_le (ok : Bool) (events : List Event) :
    Always handle (fun s => s.load ≤ 1) (({} : WebsocketClientImpl).start ok) events := by
  refine always_iff_prefix.mpr fun done _ => ?_
  refine foldl_invariant handle (fun s e one => (load_handle_le s e).trans one) ?_
  exact load_connect_le {} ok

/-! ## As its users see it -/

section Refinement

open Exchange (WebsocketClient Link)

def link (s : WebsocketClientImpl) : Link :=
  if s.opened ≠ [] then .up else if s.closing ≠ [] then .closing else .down

def callback? : Call → Option WebsocketClient.Callback
  | .onConnected => some .onConnected
  | .onDisconnected => some .onDisconnected
  | .attempt | .ping | .onText _ => none

def callbacks (s : WebsocketClientImpl) : List WebsocketClient.Callback :=
  s.calls.filterMap fun call => callback? call.2

/-- The client takes an event, and what it calls of its user is noted. -/
def play (w : WebsocketClient × List WebsocketClient.Callback) (e : WebsocketClient.Event) :
    WebsocketClient × List WebsocketClient.Callback :=
  ((w.1.handle e).1, w.2 ++ (w.1.handle e).2.toList)

/-- What a client shows of its implementation. An attempt that could not be initialised counts as
one that does not end. -/
structure Shows (s : WebsocketClientImpl)
    (w : WebsocketClient × List WebsocketClient.Callback) : Prop where
  last : ∀ id ∈ s.opened, s.hdl = some id
  started : w.1.started = true
  stopped : w.1.stopped = s.stopped
  attempts : s.connecting.length ≤ w.1.attempts
  timer : w.1.timer = s.reconnectTimer
  link : w.1.link = s.link
  callbacks : w.2 = s.callbacks

variable {w : WebsocketClient × List WebsocketClient.Callback}

/-- The ping timer and the calls that are no callbacks are not shown. -/
theorem Shows.of_same (shows : s.Shows w) (hdl : t.hdl = s.hdl) (opened : t.opened = s.opened)
    (closing : t.closing = s.closing) (connecting : t.connecting = s.connecting)
    (reconnectTimer : t.reconnectTimer = s.reconnectTimer) (stopped : t.stopped = s.stopped)
    (callbacks : t.callbacks = s.callbacks) : t.Shows w where
  last := by
    rw [opened, hdl]
    exact shows.last
  started := shows.started
  stopped := shows.stopped.trans stopped.symm
  attempts := by
    rw [connecting]
    exact shows.attempts
  timer := shows.timer.trans reconnectTimer.symm
  link := by
    rw [shows.link, WebsocketClientImpl.link, WebsocketClientImpl.link, opened, closing]
  callbacks := shows.callbacks.trans callbacks.symm

theorem callbacks_emit (s : WebsocketClientImpl) (c : Call) :
    (s.emit c).callbacks = s.callbacks ++ (callback? c).toList := by
  simp only [callbacks, emit, List.filterMap_append]
  cases c <;> rfl

/-- An attempt that is in flight is all there is. -/
theorem alone_connecting (one : s.load ≤ 1) {id : ℕ} (pending : id ∈ s.connecting) :
    s.connecting.erase id = [] ∧ s.opened = [] := by
  have positive := List.length_pos_of_mem pending
  have shorter := List.length_erase_add_one pending
  unfold load at one
  exact ⟨List.length_eq_zero_iff.mp (by omega), List.length_eq_zero_iff.mp (by omega)⟩

/-- A connection that is not closed is all there is. -/
theorem alone_connected (one : s.load ≤ 1) {id : ℕ} (there : id ∈ s.opened ++ s.closing) :
    s.opened.erase id = [] ∧ s.closing.erase id = [] ∧ s.link ≠ .down := by
  have erased := load_closed_lt there
  unfold load at one erased
  simp only at erased
  refine ⟨List.length_eq_zero_iff.mp (by omega), List.length_eq_zero_iff.mp (by omega), ?_⟩
  unfold WebsocketClientImpl.link
  split
  · simp
  · rename_i closed
    rw [not_not.mp closed, List.nil_append] at there
    rw [if_pos (List.ne_nil_of_mem there)]
    simp

theorem Shows.emit (shows : s.Shows w) (c : Call) :
    (s.emit c).Shows (w.1, w.2 ++ (callback? c).toList) :=
  { shows with
    last := shows.last
    callbacks := by rw [callbacks_emit, shows.callbacks] }

theorem Shows.startPing (shows : s.Shows w) : s.startPing.Shows w := by
  unfold WebsocketClientImpl.startPing
  split
  · exact shows
  · exact shows.of_same rfl rfl rfl rfl rfl rfl rfl

/-- Waiting to connect again is shown as such. -/
theorem Shows.handleReconnect (shows : s.Shows w) :
    s.handleReconnect.Shows (w.1.reconnect, w.2) := by
  unfold WebsocketClientImpl.handleReconnect WebsocketClient.reconnect
  by_cases stopped : s.stopped = true
  · rw [if_pos stopped, if_pos (shows.stopped.trans stopped)]
    exact shows
  · rw [if_neg stopped, if_neg fun same => stopped (shows.stopped.symm.trans same)]
    exact { shows with timer := rfl }

theorem Shows.stop (shows : s.Shows w) : s.stop.Shows (play w .stop) := by
  have played : play w .stop =
      ({ w.1 with
          stopped := true
          link := if w.1.link = .up then .closing else w.1.link }, w.2) := by
    simp [play, WebsocketClient.handle, shows.started]
  have closed : s.opened.filter (s.hdl ≠ some ·) = [] :=
    List.filter_eq_nil_iff.mpr fun id mem => by simp [shows.last id mem]
  have kept : s.opened.filter (s.hdl = some ·) = s.opened :=
    List.filter_eq_self.mpr fun id mem => by simp [shows.last id mem]
  rw [played, WebsocketClientImpl.stop, closed, kept]
  refine { shows with last := by simp, stopped := rfl, link := ?_ }
  rw [shows.link]
  unfold WebsocketClientImpl.link
  by_cases up : s.opened = []
  · by_cases closing : s.closing = [] <;> simp [up, closing]
  · simp [up]

theorem Shows.opened (shows : s.Shows w) (one : s.load ≤ 1) {id : ℕ} (pending : id ∈ s.connecting) :
    (s.handle (.opened id)).Shows (play w .opened) := by
  obtain ⟨erased, empty⟩ := alone_connecting one pending
  have positive := List.length_pos_of_mem pending
  have attempts := shows.attempts
  have ready : w.1.attempts ≠ 0 := by omega
  have played : play w .opened =
      ({ w.1 with attempts := w.1.attempts - 1, link := .up, sent := [] },
        w.2 ++ [.onConnected]) := by
    simp [play, WebsocketClient.handle, ready]
  rw [played, handle, if_pos pending, erased, empty, onOpen]
  have connected : ({ s with connecting := [], opened := [id], hdl := some id } :
      WebsocketClientImpl).Shows
        ({ w.1 with attempts := w.1.attempts - 1, link := .up, sent := [] }, w.2) :=
    { shows with last := by simp, attempts := Nat.zero_le _, link := rfl }
  exact connected.startPing.emit .onConnected

theorem Shows.failed (shows : s.Shows w) (one : s.load ≤ 1) {id : ℕ} (pending : id ∈ s.connecting) :
    (s.handle (.failed id)).Shows (play w .failed) := by
  obtain ⟨erased, -⟩ := alone_connecting one pending
  have positive := List.length_pos_of_mem pending
  have attempts := shows.attempts
  have ready : w.1.attempts ≠ 0 := by omega
  have played : play w .failed =
      ({ w.1 with attempts := w.1.attempts - 1 }.reconnect, w.2) := by
    simp [play, WebsocketClient.handle, ready]
  rw [played, handle, if_pos pending, erased, onFail]
  have ended : ({ s with connecting := [] } : WebsocketClientImpl).Shows
      ({ w.1 with attempts := w.1.attempts - 1 }, w.2) :=
    { shows with attempts := Nat.zero_le _ }
  exact ended.handleReconnect

theorem Shows.closed (shows : s.Shows w) (one : s.load ≤ 1) {id : ℕ}
    (there : id ∈ s.opened ++ s.closing) : (s.handle (.closed id)).Shows (play w .closed) := by
  obtain ⟨opened, closing, up⟩ := alone_connected one there
  rw [← shows.link] at up
  have played : play w .closed =
      ({ w.1 with link := .down }.reconnect, w.2 ++ [.onDisconnected]) := by
    simp [play, WebsocketClient.handle, up]
  rw [played, handle, if_pos there, opened, closing, onClose_eq]
  have gone : ({ s with opened := [], closing := [] } : WebsocketClientImpl).Shows
      ({ w.1 with link := .down }, w.2) :=
    { shows with last := by simp, link := rfl }
  exact (gone.emit .onDisconnected).handleReconnect

/-- An attempt is shown, and so is one that cannot be initialised. -/
theorem Shows.connect (shows : s.Shows w) (ok : Bool) : (s.connect ok).Shows
    (if w.1.stopped then w.1 else { w.1 with attempts := w.1.attempts + 1 }, w.2) := by
  have attempts := shows.attempts
  unfold WebsocketClientImpl.connect
  by_cases stopped : s.stopped = true
  · rw [if_pos stopped, if_pos (shows.stopped.trans stopped)]
    exact shows
  · rw [if_neg stopped, if_neg fun same => stopped (shows.stopped.symm.trans same)]
    cases ok with
    | false => exact { shows with attempts := Nat.le_succ_of_le attempts }
    | true =>
      have next : ({ s with
          connecting := s.connecting ++ [s.attempts], attempts := s.attempts + 1 } :
            WebsocketClientImpl).Shows ({ w.1 with attempts := w.1.attempts + 1 }, w.2) :=
        { shows with attempts := by simpa using attempts }
      simpa [callback?] using next.emit .attempt

theorem Shows.reconnectTimer (shows : s.Shows w) (armed : s.reconnectTimer = true) (ok : Bool) :
    (s.handle (.reconnectTimer ok)).Shows (play w .timer) := by
  have ready := shows.timer.trans armed
  have played : play w .timer = (if w.1.stopped then { w.1 with timer := false }
      else { w.1 with timer := false, attempts := w.1.attempts + 1 }, w.2) := by
    simp [play, WebsocketClient.handle, ready]
  rw [played, handle, if_pos armed]
  have unarmed : ({ s with reconnectTimer := false } : WebsocketClientImpl).Shows
      ({ w.1 with timer := false }, w.2) := { shows with timer := rfl }
  exact unarmed.connect ok

/-- Each event is shown as one event, or not at all. -/
theorem exists_played (shows : s.Shows w) (one : s.load ≤ 1) (e : Event) :
    ∃ es : List WebsocketClient.Event, (s.handle e).Shows (es.foldl play w) := by
  cases e with
  | stop => exact ⟨[.stop], shows.stop⟩
  | opened id =>
    by_cases pending : id ∈ s.connecting
    · exact ⟨[.opened], shows.opened one pending⟩
    · exact ⟨[], by simpa [handle, pending] using shows⟩
  | failed id =>
    by_cases pending : id ∈ s.connecting
    · exact ⟨[.failed], shows.failed one pending⟩
    · exact ⟨[], by simpa [handle, pending] using shows⟩
  | closed id =>
    by_cases there : id ∈ s.opened ++ s.closing
    · exact ⟨[.closed], shows.closed one there⟩
    · exact ⟨[], by rwa [handle, if_neg there]⟩
  | message id text =>
    refine ⟨[], ?_⟩
    simp only [handle]
    split
    · simpa [onMessage, callback?] using shows.emit (.onText text)
    · exact shows
  | reconnectTimer ok =>
    by_cases armed : s.reconnectTimer = true
    · exact ⟨[.timer], shows.reconnectTimer armed ok⟩
    · exact ⟨[], by rwa [handle, if_neg armed]⟩
  | pingTimer =>
    refine ⟨[], ?_⟩
    simp only [handle]
    split
    · have unarmed : ({ s with pingTimer := false } : WebsocketClientImpl).Shows w :=
        shows.of_same rfl rfl rfl rfl rfl rfl rfl
      refine Shows.startPing ?_
      split
      · simpa [callback?] using unarmed.emit .ping
      · exact unarmed
    · exact shows

/-- Every run of an implementation that is started once is shown as a run of the client, with the
same callbacks. -/
theorem exists_shown (ok : Bool) (events : List Event) :
    ∃ es : List WebsocketClient.Event,
      (events.foldl handle (({} : WebsocketClientImpl).start ok)).Shows
        (es.foldl play (WebsocketClient.start {}, [])) := by
  have start : (({} : WebsocketClientImpl).start ok).Shows (WebsocketClient.start {}, []) := by
    have fresh : ({} : WebsocketClientImpl).Shows ({ started := true }, []) :=
      ⟨by simp, rfl, rfl, le_rfl, rfl, rfl, rfl⟩
    exact fresh.connect ok
  obtain ⟨es, -, shown⟩ := exists_matching_run
    (R := fun (s : WebsocketClientImpl) w => s.load ≤ 1 ∧ s.Shows w) (fun s w e now => by
      obtain ⟨es, next⟩ := exists_played now.2 now.1 e
      exact ⟨es, (load_handle_le s e).trans now.1, next⟩)
    ⟨load_connect_le {} ok, start⟩ events
  exact ⟨es, shown⟩

end Refinement

end WebsocketClientImpl

end KeenTrader.Api
