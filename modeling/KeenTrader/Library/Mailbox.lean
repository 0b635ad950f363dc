import Mathlib.Data.List.Basic
import Mathlib.Tactic

/-!
# A worker that drains a queue

A queue under a lock, an event that resets itself when a wait on it returns, a flag that is read
under the lock and written without it, and a worker thread that waits while the flag is set and
the queue is empty. Between its two readings of the flag the worker holds the lock. What it does
with a message is left to the user of the mailbox.
-/

namespace Queues

/-- Where the worker is: no thread yet, before the condition of its loop, behind it and holding
the lock, in the wait, busy with a message, or returned. -/
inductive Worker (M : Type*) where
  | absent
  | testing
  | leaving
  | waiting
  | busy (message : M)
  | exited
  deriving DecidableEq

/-- The message that the worker has in hand. -/
def Worker.held {M : Type*} : Worker M → List M
  | .busy m => [m]
  | _ => []

structure Mailbox (M : Type*) where
  active : Bool := false
  queue : List M := []
  signal : Bool := false
  worker : Worker M := .absent
  deriving DecidableEq

namespace Mailbox

variable {M : Type*}

def push (s : Mailbox M) (m : M) : Mailbox M :=
  { s with queue := s.queue ++ [m], signal := true }

def set (s : Mailbox M) : Mailbox M := { s with signal := true }

/-- Create the thread, where there is none. -/
def spawn (s : Mailbox M) : Mailbox M :=
  match s.worker with
  | .absent => { s with worker := .testing }
  | _ => s

/-- A step of the loop in front of the message: the condition is evaluated, or the wait returns
and resets the event. -/
def look (s : Mailbox M) : Mailbox M :=
  match s.worker with
  | .testing =>
    if s.active = true ∧ s.queue = [] then { s with worker := .waiting }
    else { s with worker := .leaving }
  | .waiting => if s.signal then { s with signal := false, worker := .testing } else s
  | _ => s

/-- A worker that waits while there are messages is about to be woken up. -/
def Awake (s : Mailbox M) : Prop :=
  s.worker = .waiting → s.queue ≠ [] → s.signal = true

/-- A worker that is about to take a message finds one. -/
def Stocked (s : Mailbox M) : Prop :=
  s.worker = .leaving → s.active = true → s.queue ≠ []

variable {s : Mailbox M}

theorem awake_push (s : Mailbox M) (m : M) : (s.push m).Awake := fun _ _ => rfl

theorem awake_set (s : Mailbox M) : s.set.Awake := fun _ _ => rfl

theorem awake_of_worker (elsewhere : s.worker ≠ .waiting) : s.Awake :=
  fun waiting _ => absurd waiting elsewhere

theorem Awake.spawn (awake : s.Awake) : s.spawn.Awake := by
  unfold Mailbox.spawn
  split
  · exact awake_of_worker (by simp)
  · exact awake

theorem Awake.look (awake : s.Awake) : s.look.Awake := by
  unfold Mailbox.look
  split
  · split
    · rename_i idle
      exact fun _ waits => absurd idle.2 waits
    · exact awake_of_worker (by simp)
  · split
    · exact awake_of_worker (by simp)
    · exact awake
  · exact awake

theorem stocked_of_worker (elsewhere : s.worker ≠ .leaving) : s.Stocked :=
  fun leaving _ => absurd leaving elsewhere

theorem Stocked.spawn (stocked : s.Stocked) : s.spawn.Stocked := by
  unfold Mailbox.spawn
  split
  · exact stocked_of_worker (by simp)
  · exact stocked

theorem Stocked.look (stocked : s.Stocked) : s.look.Stocked := by
  unfold Mailbox.look
  split
  · split
    · exact stocked_of_worker (by simp)
    · rename_i work
      exact fun _ active empty => work ⟨active, empty⟩
  · split
    · exact stocked_of_worker (by simp)
    · exact stocked
  · exact stocked

@[simp] theorem push_worker (s : Mailbox M) (m : M) : (s.push m).worker = s.worker := rfl

@[simp] theorem push_queue (s : Mailbox M) (m : M) : (s.push m).queue = s.queue ++ [m] := rfl

@[simp] theorem look_queue (s : Mailbox M) : s.look.queue = s.queue := by
  unfold look
  split
  · split <;> rfl
  · split <;> rfl
  · rfl

theorem look_exited (s : Mailbox M) : s.look.worker = .exited ↔ s.worker = .exited := by
  unfold look
  cases worker : s.worker with
  | testing => simp only; split <;> simp
  | waiting => simp only; split <;> simp [worker]
  | absent | leaving | busy | exited => simp [worker]

@[simp] theorem look_held (s : Mailbox M) : s.look.worker.held = s.worker.held := by
  unfold look
  cases worker : s.worker with
  | testing => simp only; split <;> rfl
  | waiting => simp only; split <;> simp [Worker.held, worker]
  | absent => simp [worker]
  | leaving => simp [worker]
  | busy m => simp [worker]
  | exited => simp [worker]

@[simp] theorem spawn_held (s : Mailbox M) : s.spawn.worker.held = s.worker.held := by
  unfold spawn
  cases worker : s.worker <;> simp [Worker.held, worker]

@[simp] theorem spawn_queue (s : Mailbox M) : s.spawn.queue = s.queue := by
  unfold spawn
  split <;> rfl

end Mailbox

end Queues
