import KeenTrader.Library.Mailbox
import KeenTrader.Library.Runs
import KeenTrader.Engine.Constant

/-!
# The event emitter

`EventEmitterImpl` with its three threads of control: any thread puts events, the worker takes
them from the queue and posts a task for each, and the main loop runs the posted tasks one at a
time and in order. A step is what happens between two points at which another thread can come in.
The handlers of a type are a multimap's entries with one key, in the order in which the container
enumerates them; where it puts a new entry among the others is up to the container.
-/

namespace KeenTrader.Engine

open Queues Runs

/-- `data` is whatever the `std::any` holds. -/
structure Event (Data : Type*) where
  type : AString
  data : Data
  deriving DecidableEq

/-- A callable: its C++ type and the object it is bound to. -/
structure HandlerType (Callable Obj : Type*) where
  callable : Callable
  object : Obj
  deriving DecidableEq

/-- `accepted` and `processed` keep the events that have been put and those whose task has begun;
`calls` is what the tasks have called. -/
structure EventEmitter (Data Callable Obj : Type*) where
  mailbox : Mailbox (Event Data) := {}
  handlers : AString → List (HandlerType Callable Obj) := fun _ => []
  generalHandlers : List (HandlerType Callable Obj) := []
  tasks : List (Event Data) := []
  running : Option (Event Data) := none
  accepted : List (Event Data) := []
  processed : List (Event Data) := []
  calls : List (HandlerType Callable Obj × Event Data) := []

namespace EventEmitter

variable {Data Callable Obj : Type*}

/-- The lock is held between the two readings of the flag, and only there for longer than one
step. -/
def locked (s : EventEmitter Data Callable Obj) : Bool :=
  match s.mailbox.worker with
  | .leaving => true
  | _ => false

def put (s : EventEmitter Data Callable Obj) (e : Event Data) : EventEmitter Data Callable Obj :=
  if s.locked then s
  else { s with mailbox := s.mailbox.push e, accepted := s.accepted ++ [e] }

/-- The second reading of the flag, and `pop_front`. -/
def take (s : Mailbox (Event Data)) : Mailbox (Event Data) :=
  if s.active then
    match s.queue with
    | e :: queue => { s with queue, worker := .busy e }
    | [] => s
  else { s with worker := .exited }

/-- One step of `_run`. -/
def run (s : EventEmitter Data Callable Obj) : EventEmitter Data Callable Obj :=
  match s.mailbox.worker with
  | .leaving => { s with mailbox := take s.mailbox }
  | .busy e =>
    { s with mailbox := { s.mailbox with worker := .testing }, tasks := s.tasks ++ [e] }
  | _ => { s with mailbox := s.mailbox.look }

/-- The handlers that `_process` calls. -/
def process (s : EventEmitter Data Callable Obj) (e : Event Data) :
    List (HandlerType Callable Obj) :=
  s.handlers e.type ++ s.generalHandlers

/-- The main loop begins with the next task, when the one before is done. -/
def begin (s : EventEmitter Data Callable Obj) : EventEmitter Data Callable Obj :=
  match s.running, s.tasks with
  | none, e :: tasks =>
    { s with
      tasks
      running := some e
      processed := s.processed ++ [e]
      calls := s.calls ++ (s.process e).map (·, e) }
  | _, _ => s

/-- The thread is joined once it has returned. -/
def join (s : EventEmitter Data Callable Obj) : EventEmitter Data Callable Obj :=
  match s.mailbox.worker with
  | .exited => { s with mailbox := { s.mailbox with worker := .absent } }
  | _ => s

section Handlers
variable [DecidableEq Callable]

/-- A handler is taken for registered when one with a callable of its type is. -/
def register (s : EventEmitter Data Callable Obj) (type : AString)
    (handler : HandlerType Callable Obj) (position : ℕ) : EventEmitter Data Callable Obj :=
  if (s.handlers type).any (·.callable = handler.callable) then s
  else
    let position := min position (s.handlers type).length
    { s with
      handlers := Function.update s.handlers type
        ((s.handlers type).insertIdx position handler) }

@[simp] theorem register_generalHandlers (s : EventEmitter Data Callable Obj) (type : AString)
    (handler : HandlerType Callable Obj) (position : ℕ) :
    (s.register type handler position).generalHandlers = s.generalHandlers := by
  unfold register
  split <;> rfl

theorem register_handlers (s : EventEmitter Data Callable Obj) (type other : AString)
    (handler : HandlerType Callable Obj) (position : ℕ) :
    (s.register type handler position).handlers other =
      if other = type ∧ (s.handlers type).any (·.callable = handler.callable) = false then
        (s.handlers type).insertIdx (min position (s.handlers type).length) handler
      else s.handlers other := by
  unfold register
  cases known : (s.handlers type).any (·.callable = handler.callable) with
  | true => simp
  | false =>
    by_cases same : other = type
    · subst same
      simp
    · simp [same]

/-- A handler that is registered for several types, each at a place of its own. -/
theorem foldl_register_handlers (handler : HandlerType Callable Obj) (place : AString → ℕ)
    {types : List AString} (distinct : types.Nodup) (s : EventEmitter Data Callable Obj)
    (type : AString) :
    (types.foldl (fun s t => s.register t handler (place t)) s).handlers type =
      if type ∈ types then (s.register type handler (place type)).handlers type
      else s.handlers type := by
  induction types generalizing s with
  | nil => rfl
  | cons t types ih =>
    obtain ⟨fresh, distinct⟩ := List.nodup_cons.mp distinct
    rw [List.foldl_cons, ih distinct]
    by_cases same : type = t
    · subst same
      simp [fresh]
    · by_cases mem : type ∈ types <;> simp [mem, same, register_handlers]

/-- The first handler whose callable has the type is erased. -/
def unRegister (s : EventEmitter Data Callable Obj) (type : AString)
    (handler : HandlerType Callable Obj) : EventEmitter Data Callable Obj :=
  { s with
    handlers := Function.update s.handlers type
      ((s.handlers type).eraseP (·.callable = handler.callable)) }

def registerGeneral (s : EventEmitter Data Callable Obj) (handler : HandlerType Callable Obj) :
    EventEmitter Data Callable Obj :=
  if s.generalHandlers.any (·.callable = handler.callable) then s
  else { s with generalHandlers := s.generalHandlers ++ [handler] }

def unregisterGeneral (s : EventEmitter Data Callable Obj) (handler : HandlerType Callable Obj) :
    EventEmitter Data Callable Obj :=
  { s with generalHandlers := s.generalHandlers.eraseP (·.callable = handler.callable) }

end Handlers

/-- The steps of the threads. `start` and `stop` are made of the steps with their names: the flag
is written first, then the thread is created, or the event set and the thread joined. There is
one thread at a time: `start` is called where there is none. An event is put by any thread, a
handler that the main loop runs included. -/
inductive Step (Data Callable Obj : Type*) where
  | put (e : Event Data)
  | startFlag
  | startThread
  | stopFlag
  | stopSet
  | stopJoin
  | run
  | begin
  | finish
  | register (type : AString) (handler : HandlerType Callable Obj) (position : ℕ)
  | unRegister (type : AString) (handler : HandlerType Callable Obj)
  | registerGeneral (handler : HandlerType Callable Obj)
  | unregisterGeneral (handler : HandlerType Callable Obj)

section Steps
variable [DecidableEq Callable]

/-- A step that has to wait for the lock, or for the thread, changes nothing. -/
def step (s : EventEmitter Data Callable Obj) :
    Step Data Callable Obj → EventEmitter Data Callable Obj
  | .put e => s.put e
  | .startFlag =>
    match s.mailbox.worker with
    | .absent => { s with mailbox := { s.mailbox with active := true } }
    | _ => s
  | .startThread => { s with mailbox := s.mailbox.spawn }
  | .stopFlag => { s with mailbox := { s.mailbox with active := false } }
  | .stopSet => { s with mailbox := s.mailbox.set }
  | .stopJoin => s.join
  | .run => s.run
  | .begin => s.begin
  | .finish => { s with running := none }
  | .register type handler position =>
    if s.locked then s else s.register type handler position
  | .unRegister type handler => if s.locked then s else s.unRegister type handler
  | .registerGeneral handler => if s.locked then s else s.registerGeneral handler
  | .unregisterGeneral handler => s.unregisterGeneral handler

end Steps

/-! ## Events in flight -/

/-- Events are processed in the order in which they are put, and those that are put and not
processed are posted, held or queued, each once. A queued event keeps the worker awake, and an
active worker that takes an event finds one. -/
structure InOrder (s : EventEmitter Data Callable Obj) : Prop where
  conserved : s.accepted =
    s.processed ++ s.tasks ++ s.mailbox.worker.held ++ s.mailbox.queue
  prefixed : s.processed <+: s.accepted
  awake : s.mailbox.Awake
  stocked : s.mailbox.Stocked

variable {s t : EventEmitter Data Callable Obj}

theorem inOrder_of_conserved
    (conserved : s.accepted = s.processed ++ s.tasks ++ s.mailbox.worker.held ++ s.mailbox.queue)
    (awake : s.mailbox.Awake) (stocked : s.mailbox.Stocked) : s.InOrder where
  conserved := conserved
  prefixed := by
    rw [conserved, List.append_assoc, List.append_assoc]
    exact List.prefix_append _ _
  awake := awake
  stocked := stocked

/-- A step that moves no event. -/
theorem InOrder.same (inOrder : s.InOrder) (accepted : t.accepted = s.accepted)
    (processed : t.processed = s.processed) (tasks : t.tasks = s.tasks)
    (held : t.mailbox.worker.held = s.mailbox.worker.held)
    (queue : t.mailbox.queue = s.mailbox.queue) (awake : t.mailbox.Awake)
    (stocked : t.mailbox.Stocked) : t.InOrder := by
  refine inOrder_of_conserved ?_ awake stocked
  rw [accepted, processed, tasks, held, queue, inOrder.conserved]

/-- A step that leaves the mailbox and the events alone. -/
theorem InOrder.of_mailbox (inOrder : s.InOrder) (accepted : t.accepted = s.accepted)
    (processed : t.processed = s.processed) (tasks : t.tasks = s.tasks)
    (mailbox : t.mailbox = s.mailbox) : t.InOrder := by
  refine inOrder.same accepted processed tasks ?_ ?_ ?_ ?_
  all_goals rw [mailbox]
  · exact inOrder.awake
  · exact inOrder.stocked

theorem InOrder.put (inOrder : s.InOrder) (e : Event Data) : (s.put e).InOrder := by
  unfold EventEmitter.put
  split
  · exact inOrder
  · rename_i unlocked
    have elsewhere : s.mailbox.worker ≠ .leaving := by
      intro leaving
      simp [locked, leaving] at unlocked
    refine inOrder_of_conserved ?_ (Mailbox.awake_push _ _) (Mailbox.stocked_of_worker elsewhere)
    simp [inOrder.conserved]

/-- The worker takes the front of the queue, or returns. -/
theorem InOrder.take (inOrder : s.InOrder) (leaving : s.mailbox.worker = .leaving) :
    ({ s with mailbox := EventEmitter.take s.mailbox } : EventEmitter _ _ _).InOrder := by
  have conserved := inOrder.conserved
  unfold EventEmitter.take
  split
  · rename_i active
    cases queued : s.mailbox.queue with
    | nil => exact absurd queued (inOrder.stocked leaving active)
    | cons e queue =>
      refine inOrder_of_conserved ?_ (Mailbox.awake_of_worker (by simp))
        (Mailbox.stocked_of_worker (by simp))
      simpa [leaving, queued, Worker.held] using conserved
  · refine inOrder_of_conserved ?_ (Mailbox.awake_of_worker (by simp))
      (Mailbox.stocked_of_worker (by simp))
    simpa [leaving, Worker.held] using conserved

theorem InOrder.run (inOrder : s.InOrder) : s.run.InOrder := by
  have conserved := inOrder.conserved
  unfold EventEmitter.run
  split
  · rename_i leaving
    exact inOrder.take leaving
  · rename_i e busy
    refine inOrder_of_conserved ?_ (Mailbox.awake_of_worker (by simp))
      (Mailbox.stocked_of_worker (by simp))
    simpa [busy, Worker.held] using conserved
  · exact inOrder.same rfl rfl rfl (Mailbox.look_held _) (Mailbox.look_queue _)
      inOrder.awake.look inOrder.stocked.look

theorem InOrder.begin (inOrder : s.InOrder) : s.begin.InOrder := by
  have conserved := inOrder.conserved
  unfold EventEmitter.begin
  split
  · rename_i e tasks _ posted
    refine inOrder_of_conserved ?_ inOrder.awake inOrder.stocked
    simpa [posted] using conserved
  · exact inOrder

theorem InOrder.join (inOrder : s.InOrder) : s.join.InOrder := by
  unfold EventEmitter.join
  split
  · rename_i exited
    refine inOrder.same rfl rfl rfl ?_ rfl (Mailbox.awake_of_worker (by simp))
      (Mailbox.stocked_of_worker (by simp))
    simp [exited, Worker.held]
  · exact inOrder

theorem InOrder.step [DecidableEq Callable] (inOrder : s.InOrder)
    (l : Step Data Callable Obj) : (s.step l).InOrder := by
  cases l with
  | put e => exact inOrder.put e
  | startFlag =>
    simp only [EventEmitter.step]
    split
    · rename_i absent
      exact inOrder.same rfl rfl rfl rfl rfl inOrder.awake
        (Mailbox.stocked_of_worker (by simp [absent]))
    · exact inOrder
  | startThread =>
    exact inOrder.same rfl rfl rfl (Mailbox.spawn_held _) (Mailbox.spawn_queue _)
      inOrder.awake.spawn inOrder.stocked.spawn
  | stopFlag =>
    refine inOrder.same rfl rfl rfl rfl rfl inOrder.awake ?_
    exact fun _ active => absurd active (by simp [EventEmitter.step])
  | stopSet => exact inOrder.same rfl rfl rfl rfl rfl (Mailbox.awake_set _) inOrder.stocked
  | stopJoin => exact inOrder.join
  | run => exact inOrder.run
  | begin => exact inOrder.begin
  | finish => exact inOrder.of_mailbox rfl rfl rfl rfl
  | register type handler position =>
    simp only [EventEmitter.step, EventEmitter.register]
    split_ifs
    · exact inOrder
    · exact inOrder
    · exact inOrder.of_mailbox rfl rfl rfl rfl
  | unRegister type handler =>
    simp only [EventEmitter.step]
    split
    · exact inOrder
    · exact inOrder.of_mailbox rfl rfl rfl rfl
  | registerGeneral handler =>
    simp only [EventEmitter.step, EventEmitter.registerGeneral]
    split_ifs
    · exact inOrder
    · exact inOrder
    · exact inOrder.of_mailbox rfl rfl rfl rfl
  | unregisterGeneral handler => exact inOrder.of_mailbox rfl rfl rfl rfl

/-- Through every interleaving of the threads, events are kept in order and none is lost. -/
theorem events_in_order [DecidableEq Callable] (steps : List (Step Data Callable Obj)) :
    Always step InOrder ({} : EventEmitter Data Callable Obj) steps := by
  have start : ({} : EventEmitter Data Callable Obj).InOrder :=
    inOrder_of_conserved rfl (Mailbox.awake_of_worker (by simp))
      (Mailbox.stocked_of_worker (by simp))
  refine always_iff_prefix.mpr fun done _ => ?_
  exact foldl_invariant step (fun s l inOrder => InOrder.step inOrder l) start

end EventEmitter

end KeenTrader.Engine
