import KeenTrader.Library.Transitions

/-!
# The thread pool

`ThreadPool`: a queue of tasks under a mutex, a condition variable on which the workers wait, and
a flag that the destructor sets. What a thread does while it holds the mutex is one step; other
threads come in between any two steps. `accepted`, `taken`, `finished` and `refused` keep what has
happened, latest last.
-/

namespace KeenTrader.Api

open Transitions

/-- Where a worker is: before the predicate of its wait, in the wait, busy with a task, or
returned. -/
inductive PoolWorker (Task : Type*) where
  | testing
  | waiting
  | running (task : Task)
  | returned
  deriving DecidableEq

/-- How far the destructor has come: it sets `stop`, notifies all workers, and joins them. -/
inductive Teardown where
  | alive | stopped | notified | joined
  deriving DecidableEq

/-- `notifies` counts the threads between the end of the locked part of `enqueue` and its
`notify_one`. -/
structure ThreadPool (Task : Type*) where
  workers : List (PoolWorker Task)
  tasks : List Task := []
  notifies : ℕ := 0
  teardown : Teardown := .alive
  accepted : List Task := []
  taken : List Task := []
  finished : List Task := []
  refused : List Task := []

namespace ThreadPool

variable {Task : Type*}

def create (threads : ℕ) : ThreadPool Task := { workers := List.replicate threads .testing }

def stop (s : ThreadPool Task) : Bool := s.teardown ≠ .alive

def setWorker (s : ThreadPool Task) (i : ℕ) (worker : PoolWorker Task) : ThreadPool Task :=
  { s with workers := s.workers.set i worker }

@[simp] theorem setWorker_workers (s : ThreadPool Task) (i : ℕ) (worker : PoolWorker Task) :
    (s.setWorker i worker).workers = s.workers.set i worker := rfl

@[simp] theorem setWorker_tasks (s : ThreadPool Task) (i : ℕ) (worker : PoolWorker Task) :
    (s.setWorker i worker).tasks = s.tasks := rfl

@[simp] theorem setWorker_notifies (s : ThreadPool Task) (i : ℕ) (worker : PoolWorker Task) :
    (s.setWorker i worker).notifies = s.notifies := rfl

@[simp] theorem setWorker_teardown (s : ThreadPool Task) (i : ℕ) (worker : PoolWorker Task) :
    (s.setWorker i worker).teardown = s.teardown := rfl

@[simp] theorem setWorker_taken (s : ThreadPool Task) (i : ℕ) (worker : PoolWorker Task) :
    (s.setWorker i worker).taken = s.taken := rfl

@[simp] theorem setWorker_finished (s : ThreadPool Task) (i : ℕ) (worker : PoolWorker Task) :
    (s.setWorker i worker).finished = s.finished := rfl

/-- A refused task is an exception for the caller. -/
def enqueue (s : ThreadPool Task) (task : Task) : ThreadPool Task :=
  if s.stop then { s with refused := s.refused ++ [task] }
  else
    { s with
      tasks := s.tasks ++ [task], notifies := s.notifies + 1, accepted := s.accepted ++ [task] }

/-- The predicate is evaluated, and what follows up to the unlocking. -/
def look (s : ThreadPool Task) (i : ℕ) : ThreadPool Task :=
  match s.tasks with
  | task :: tasks => { s with tasks, taken := s.taken ++ [task] }.setWorker i (.running task)
  | [] => s.setWorker i (if s.stop then .returned else .waiting)

def wake : PoolWorker Task → PoolWorker Task
  | .waiting => .testing
  | worker => worker

def isWaiting : PoolWorker Task → Bool
  | .waiting => true
  | _ => false

def isReturned : PoolWorker Task → Bool
  | .returned => true
  | _ => false

/-- `notify` is a `notify_one` that wakes the worker up, and `notifyNobody` one that finds nobody
in the wait. `wake` is a wake-up without a cause. -/
inductive Action (Task : Type*) where
  | enqueue (task : Task)
  | notify (worker : ℕ)
  | notifyNobody
  | wake (worker : ℕ)
  | look (worker : ℕ)
  | finish (worker : ℕ)
  | stop
  | notifyAll
  | join

def step (s : ThreadPool Task) : Action Task → Option (ThreadPool Task)
  | .enqueue task => some (s.enqueue task)
  | .notify i =>
    match s.notifies, s.workers[i]? with
    | n + 1, some .waiting => some ({ s with notifies := n }.setWorker i .testing)
    | _, _ => none
  | .notifyNobody =>
    match s.notifies, s.workers.any isWaiting with
    | n + 1, false => some { s with notifies := n }
    | _, _ => none
  | .wake i =>
    match s.workers[i]? with
    | some .waiting => some (s.setWorker i .testing)
    | _ => none
  | .look i =>
    match s.workers[i]? with
    | some .testing => some (s.look i)
    | _ => none
  | .finish i =>
    match s.workers[i]? with
    | some (.running task) =>
      some ({ s with finished := s.finished ++ [task] }.setWorker i .testing)
    | _ => none
  | .stop => if s.teardown = .alive then some { s with teardown := .stopped } else none
  | .notifyAll =>
    if s.teardown = .stopped then
      some { s with teardown := .notified, workers := s.workers.map wake }
    else none
  | .join =>
    if s.teardown = .notified ∧ s.workers.all isReturned then some { s with teardown := .joined }
    else none

/-! ## What is kept -/

/-- The task that a worker has in hand. -/
def held : PoolWorker Task → Multiset Task
  | .running task => {task}
  | _ => 0

def testing : PoolWorker Task → ℕ
  | .testing => 1
  | _ => 0

/-- The workers about to look for a task. -/
def looking (s : ThreadPool Task) : ℕ := (s.workers.map testing).sum

/-- Tasks are taken in the order in which they were accepted, each by one worker. While a worker
waits, every task has a wake-up on the way or a worker that is about to look. -/
structure Sound (s : ThreadPool Task) : Prop where
  order : s.taken ++ s.tasks = s.accepted
  once : (s.finished : Multiset Task) + (s.workers.map held).sum = s.taken
  served : .waiting ∈ s.workers → s.tasks.length ≤ s.notifies + s.looking
  returned : .returned ∈ s.workers → s.stop = true ∧ s.tasks = []
  awake : s.teardown = .notified ∨ s.teardown = .joined → .waiting ∉ s.workers

variable {s t : ThreadPool Task} {i : ℕ} {a b : PoolWorker Task}

theorem mem_of_mem_set {c : PoolWorker Task} (mem : c ∈ s.workers.set i b) (ne : c ≠ b) :
    c ∈ s.workers := (List.mem_or_eq_of_mem_set mem).resolve_right ne

/-- A worker that changes its place with the same task in hand, or with none. -/
theorem sum_held_set (here : s.workers[i]? = some a) (same : held a = held b) :
    ((s.workers.set i b).map held).sum = (s.workers.map held).sum := by
  have change_ := sum_map_set held here b
  rw [same] at change_
  exact add_right_cancel change_

theorem sound_create (threads : ℕ) : (create threads : ThreadPool Task).Sound where
  order := rfl
  once := by simp [create, held]
  served mem := by simp [create] at mem
  returned mem := by simp [create] at mem
  awake done := by simp [create] at done

theorem sound_enqueue (sound : s.Sound) (task : Task) : (s.enqueue task).Sound := by
  unfold enqueue
  split
  · exact ⟨sound.order, sound.once, sound.served, sound.returned, sound.awake⟩
  · rename_i running
    refine ⟨?_, sound.once, fun mem => ?_, fun mem => ?_, sound.awake⟩
    · rw [← sound.order, List.append_assoc]
    · have served := sound.served mem
      simp only [List.length_append, List.length_singleton]
      change _ ≤ s.notifies + 1 + s.looking
      omega
    · exact absurd (sound.returned mem).1 running

/-- A worker leaves the wait, with or without a notification. -/
theorem sound_wake (sound : s.Sound) (here : s.workers[i]? = some .waiting) {n : ℕ}
    (enough : s.notifies ≤ n + 1) : ({ s with notifies := n }.setWorker i .testing).Sound := by
  have waits := List.mem_of_getElem? here
  have more : ({ s with notifies := n }.setWorker i .testing).looking = s.looking + 1 :=
    sum_map_set testing here .testing
  refine ⟨sound.order, ?_, fun mem => ?_, fun mem => ?_,
    fun done => absurd waits (sound.awake done)⟩
  · rw [setWorker_workers, sum_held_set (b := .testing) here rfl]
    exact sound.once
  · have served := sound.served waits
    rw [more]
    change s.tasks.length ≤ n + (s.looking + 1)
    omega
  · exact sound.returned (mem_of_mem_set mem (by simp))

theorem sound_look (sound : s.Sound) (here : s.workers[i]? = some .testing) :
    (s.look i).Sound := by
  unfold look
  cases tasks : s.tasks with
  | cons task rest =>
    dsimp only
    have order := sound.order
    rw [tasks] at order
    have fewer : (s.setWorker i (.running task)).looking + 1 = s.looking :=
      sum_map_set testing here (.running task)
    refine ⟨by simpa [setWorker] using order, ?_, fun mem => ?_, fun mem => ?_, fun done mem => ?_⟩
    · have more := sum_map_set held here (.running task)
      have once := sound.once
      simp only [held, add_zero] at more
      simp only [setWorker, more, ← add_assoc, once]
      rw [← Multiset.coe_add, Multiset.coe_singleton]
    · have served := sound.served (mem_of_mem_set mem (by simp))
      rw [tasks, List.length_cons] at served
      change rest.length ≤ s.notifies + (s.setWorker i (.running task)).looking
      omega
    · have none := (sound.returned (mem_of_mem_set mem (by simp))).2
      rw [tasks] at none
      contradiction
    · exact sound.awake done (mem_of_mem_set mem (by simp))
  | nil =>
    dsimp only
    have order := sound.order
    rw [tasks] at order
    by_cases stopped : s.stop = true
    · rw [if_pos stopped]
      refine ⟨by simpa [setWorker, tasks] using order, ?_, fun mem => ?_, fun _ => ⟨stopped, tasks⟩,
        fun done mem => sound.awake done (mem_of_mem_set mem (by simp))⟩
      · rw [setWorker_workers, sum_held_set (b := .returned) here rfl]
        exact sound.once
      · simp [setWorker, tasks]
    · rw [if_neg stopped]
      refine ⟨by simpa [setWorker, tasks] using order, ?_, fun mem => ?_, fun mem => ?_,
        fun done mem => ?_⟩
      · rw [setWorker_workers, sum_held_set (b := .waiting) here rfl]
        exact sound.once
      · simp [setWorker, tasks]
      · exact sound.returned (mem_of_mem_set mem (by simp))
      · refine stopped ?_
        rcases done with notified | joined
        · rw [setWorker_teardown] at notified
          simp [stop, notified]
        · rw [setWorker_teardown] at joined
          simp [stop, joined]

theorem sound_finish (sound : s.Sound) {task : Task}
    (here : s.workers[i]? = some (.running task)) :
    ({ s with finished := s.finished ++ [task] }.setWorker i .testing).Sound := by
  have more : (s.setWorker i .testing).looking = s.looking + 1 :=
    sum_map_set testing here .testing
  refine ⟨sound.order, ?_, fun mem => ?_, fun mem => ?_, fun done mem => ?_⟩
  · have fewer := sum_map_set held here .testing
    have once := sound.once
    simp only [held, add_zero] at fewer
    simp only [setWorker]
    rw [← Multiset.coe_add, Multiset.coe_singleton, ← once, ← fewer]
    abel
  · have served := sound.served (mem_of_mem_set mem (by simp))
    change s.tasks.length ≤ s.notifies + (s.setWorker i .testing).looking
    omega
  · exact sound.returned (mem_of_mem_set mem (by simp))
  · exact sound.awake done (mem_of_mem_set mem (by simp))

theorem mem_map_wake {workers : List (PoolWorker Task)} {c : PoolWorker Task} (ne : c ≠ .testing) :
    c ∈ workers.map wake ↔ c ∈ workers ∧ c ≠ .waiting := by
  constructor
  · intro mem
    obtain ⟨worker, there, rfl⟩ := List.mem_map.mp mem
    cases worker with
    | waiting => exact absurd rfl ne
    | testing | running | returned => exact ⟨there, by simp [wake]⟩
  · rintro ⟨mem, not_waiting⟩
    refine List.mem_map.mpr ⟨c, mem, ?_⟩
    cases c with
    | waiting => contradiction
    | testing | running | returned => rfl

theorem sound_notifyAll (sound : s.Sound) :
    { s with teardown := .notified, workers := s.workers.map wake }.Sound where
  order := sound.order
  once := by
    have same : ∀ worker : PoolWorker Task, held (wake worker) = held worker := by
      intro worker
      cases worker <;> rfl
    simpa [same, Function.comp_def] using sound.once
  served mem := absurd rfl ((mem_map_wake (by simp)).mp mem).2
  returned mem := by
    have before := sound.returned ((mem_map_wake (by simp)).mp mem).1
    exact ⟨rfl, before.2⟩
  awake _ mem := absurd rfl ((mem_map_wake (by simp)).mp mem).2

theorem step_sound (sound : s.Sound) {l : Action Task} (possible : s.step l = some t) :
    t.Sound := by
  cases l with
  | enqueue task =>
    obtain rfl := Option.some.inj possible
    exact sound_enqueue sound task
  | notify i =>
    simp only [step] at possible
    split at possible
    · rename_i n pending here
      obtain rfl := Option.some.inj possible
      exact sound_wake sound here pending.le
    · contradiction
  | notifyNobody =>
    simp only [step] at possible
    split at possible
    · rename_i n pending nobody
      obtain rfl := Option.some.inj possible
      have none : .waiting ∉ s.workers := by
        intro mem
        have waits := List.any_eq_false.mp nobody _ mem
        exact waits rfl
      exact ⟨sound.order, sound.once, fun mem => absurd mem none, sound.returned, sound.awake⟩
    · contradiction
  | wake i =>
    simp only [step] at possible
    split at possible
    · rename_i here
      obtain rfl := Option.some.inj possible
      exact sound_wake sound here (Nat.le_succ _)
    · contradiction
  | look i =>
    simp only [step] at possible
    split at possible
    · rename_i here
      obtain rfl := Option.some.inj possible
      exact sound_look sound here
    · contradiction
  | finish i =>
    simp only [step] at possible
    split at possible
    · rename_i task here
      obtain rfl := Option.some.inj possible
      exact sound_finish sound here
    · contradiction
  | stop =>
    simp only [step] at possible
    split at possible
    · obtain rfl := Option.some.inj possible
      exact ⟨sound.order, sound.once, sound.served, fun mem => ⟨rfl, (sound.returned mem).2⟩,
        fun done => by simp at done⟩
    · contradiction
  | notifyAll =>
    simp only [step] at possible
    split at possible
    · obtain rfl := Option.some.inj possible
      exact sound_notifyAll sound
    · contradiction
  | join =>
    simp only [step] at possible
    split at possible
    · rename_i done
      obtain rfl := Option.some.inj possible
      exact ⟨sound.order, sound.once, sound.served, fun mem => ⟨rfl, (sound.returned mem).2⟩,
        fun _ => sound.awake (.inl done.1)⟩
    · contradiction

/-- Every accepted task is queued, in hand, or finished. -/
theorem Sound.places (sound : s.Sound) :
    (s.tasks : Multiset Task) + (s.workers.map held).sum + s.finished = s.accepted := by
  rw [← sound.order, ← Multiset.coe_add, ← sound.once]
  abel

/-! ## Coming to rest -/

/-- What the pool does by itself. The rest is up to its users and to the scheduler. -/
def Internal : Action Task → Prop
  | .notify _ | .notifyNobody | .look _ | .finish _ | .notifyAll | .join => True
  | .enqueue _ | .wake _ | .stop => False

/-- How far a worker is from its return. -/
def rank : PoolWorker Task → ℕ
  | .returned => 0
  | .waiting => 1
  | .testing => 2
  | .running _ => 3

/-- How far the destructor is from its end. -/
def ahead (workers : ℕ) : Teardown → ℕ
  | .joined => 0
  | .notified => 1
  | .stopped => workers + 2
  | .alive => workers + 3

/-- What is left to do, an upper bound of the internal steps to come. -/
def work (s : ThreadPool Task) : ℕ :=
  2 * s.tasks.length + 2 * s.notifies + (s.workers.map rank).sum + ahead s.workers.length s.teardown

theorem sum_rank_wake (workers : List (PoolWorker Task)) :
    ((workers.map wake).map rank).sum ≤ (workers.map rank).sum + workers.length := by
  induction workers with
  | nil => simp
  | cons worker workers ih =>
    have one : rank (wake worker) ≤ rank worker + 1 := by
      cases worker <;> simp [wake, rank]
    simp only [List.map_cons, List.sum_cons, List.length_cons]
    omega

/-- Every internal step does a part of the work. -/
theorem work_lt {l : Action Task} (internal : Internal l) (possible : s.step l = some t) :
    t.work < s.work := by
  cases l with
  | enqueue task => exact internal.elim
  | wake i => exact internal.elim
  | stop => exact internal.elim
  | notify i =>
    simp only [step] at possible
    split at possible
    · rename_i n pending here
      obtain rfl := Option.some.inj possible
      have ranks := sum_map_set rank here .testing
      simp only [rank] at ranks
      simp only [work, setWorker_workers, setWorker_tasks, setWorker_notifies, setWorker_teardown,
        List.length_set]
      omega
    · contradiction
  | notifyNobody =>
    simp only [step] at possible
    split at possible
    · rename_i n pending nobody
      obtain rfl := Option.some.inj possible
      simp only [work]
      omega
    · contradiction
  | look i =>
    simp only [step] at possible
    split at possible
    · rename_i here
      obtain rfl := Option.some.inj possible
      unfold look
      split
      · rename_i task rest tasks
        have ranks := sum_map_set rank here (.running task)
        simp only [rank] at ranks
        simp only [work, tasks, setWorker_workers, setWorker_tasks, setWorker_notifies,
          setWorker_teardown, List.length_set, List.length_cons]
        omega
      · have less : rank (if s.stop then .returned else .waiting : PoolWorker Task) < 2 := by
          split <;> simp [rank]
        generalize (if s.stop then .returned else .waiting : PoolWorker Task) = next at less ⊢
        have ranks := sum_map_set rank here next
        change _ + 2 = _ at ranks
        simp only [work, setWorker_workers, setWorker_tasks, setWorker_notifies,
          setWorker_teardown, List.length_set]
        omega
    · contradiction
  | finish i =>
    simp only [step] at possible
    split at possible
    · rename_i task here
      obtain rfl := Option.some.inj possible
      have ranks := sum_map_set rank here .testing
      simp only [rank] at ranks
      simp only [work, setWorker_workers, setWorker_tasks, setWorker_notifies,
        setWorker_teardown, List.length_set]
      omega
    · contradiction
  | notifyAll =>
    simp only [step] at possible
    split at possible
    · rename_i stopped
      obtain rfl := Option.some.inj possible
      have ranks := sum_rank_wake s.workers
      simp only [work, ahead, stopped]
      omega
    · contradiction
  | join =>
    simp only [step] at possible
    split at possible
    · rename_i done
      obtain rfl := Option.some.inj possible
      simp only [work, ahead, done.1]
      omega
    · contradiction

theorem step_length {l : Action Task} (possible : s.step l = some t) :
    t.workers.length = s.workers.length := by
  cases l with
  | enqueue task =>
    obtain rfl := Option.some.inj possible
    unfold enqueue
    split <;> rfl
  | notify i | notifyNobody | wake i | finish i | stop | notifyAll | join =>
    simp only [step] at possible
    split at possible
    · obtain rfl := Option.some.inj possible
      simp
    · contradiction
  | look i =>
    simp only [step] at possible
    split at possible
    · obtain rfl := Option.some.inj possible
      unfold look
      split <;> simp
    · contradiction

theorem ne_testing_of_rest (rest : AtRest step Internal s) {worker : PoolWorker Task}
    (mem : worker ∈ s.workers) : worker = .waiting ∨ worker = .returned := by
  obtain ⟨i, here⟩ := List.mem_iff_getElem?.mp mem
  cases worker with
  | waiting => exact .inl rfl
  | returned => exact .inr rfl
  | testing =>
    have possible := rest (.look i) trivial
    simp [step, here] at possible
  | running task =>
    have possible := rest (.finish i) trivial
    simp [step, here] at possible

theorem notifies_of_rest (rest : AtRest step Internal s) : s.notifies = 0 := by
  by_contra pending
  obtain ⟨n, count⟩ := Nat.exists_eq_succ_of_ne_zero pending
  by_cases waits : .waiting ∈ s.workers
  · obtain ⟨i, here⟩ := List.mem_iff_getElem?.mp waits
    have possible := rest (.notify i) trivial
    simp [step, count, here] at possible
  · have nobody : s.workers.any isWaiting = false := by
      refine List.any_eq_false.mpr fun worker mem is_waiting => ?_
      cases worker with
      | waiting => exact waits mem
      | testing | running | returned => contradiction
    have possible := rest .notifyNobody trivial
    simp [step, count, nobody] at possible

/-- A pool at rest has no task left, and has been joined if it was stopped. -/
theorem Sound.rest (sound : s.Sound) (some_ : s.workers ≠ []) (rest : AtRest step Internal s) :
    s.tasks = [] ∧ s.finished.Perm s.accepted ∧ (s.stop = true → s.teardown = .joined) := by
  have places (worker : PoolWorker Task) (mem : worker ∈ s.workers) :
      worker = .waiting ∨ worker = .returned :=
    ne_testing_of_rest rest mem
  have idle : s.looking = 0 := by
    refine List.sum_eq_zero fun n mem => ?_
    obtain ⟨worker, there, rfl⟩ := List.mem_map.mp mem
    rcases places worker there with rfl | rfl <;> rfl
  have tasks : s.tasks = [] := by
    obtain ⟨worker, mem⟩ := List.exists_mem_of_ne_nil _ some_
    rcases places worker mem with rfl | rfl
    · have served := sound.served mem
      rw [notifies_of_rest rest, idle] at served
      exact List.length_eq_zero_iff.mp (Nat.le_zero.mp served)
    · exact (sound.returned mem).2
  have hands : (s.workers.map held).sum = 0 := by
    refine List.sum_eq_zero fun hand mem => ?_
    obtain ⟨worker, there, rfl⟩ := List.mem_map.mp mem
    rcases places worker there with rfl | rfl <;> rfl
  have order := sound.order
  have once := sound.once
  rw [tasks, List.append_nil] at order
  rw [hands, add_zero, order] at once
  refine ⟨tasks, Multiset.coe_eq_coe.mp once, fun stopped => ?_⟩
  cases teardown : s.teardown with
  | joined => rfl
  | alive => simp [stop, teardown] at stopped
  | stopped =>
    have possible := rest .notifyAll trivial
    simp [step, teardown] at possible
  | notified =>
    have awake := sound.awake (.inl teardown)
    have all : s.workers.all isReturned = true := by
      refine List.all_eq_true.mpr fun worker mem => ?_
      rcases places worker mem with rfl | rfl
      · exact absurd mem awake
      · rfl
    have possible := rest .join trivial
    simp [step, teardown, all] at possible

theorem run_sound {threads : ℕ} {actions : List (Action Task)}
    (reached : run step (create threads) actions = some s) : s.Sound :=
  run_invariant (fun _ _ _ now possible => step_sound now possible) (sound_create threads) reached

theorem run_length {threads : ℕ} {actions : List (Action Task)}
    (reached : run step (create threads) actions = some s) : s.workers.length = threads :=
  run_invariant (P := fun s => s.workers.length = threads)
    (fun _ _ _ now possible => (step_length possible).trans now) (by simp [create]) reached

/-- In every state of every run, tasks have been taken in the order in which they were accepted,
none was finished that was not taken or finished twice, and no task waits for a worker that sleeps
unless somebody is about to wake it up or to take the task. -/
theorem taken_in_order {threads : ℕ} {actions : List (Action Task)}
    (reached : run step (create threads) actions = some s) :
    s.taken ++ s.tasks = s.accepted ∧ s.finished.Subperm s.taken ∧
      (.waiting ∈ s.workers → s.tasks.length ≤ s.notifies + s.looking) := by
  have sound := run_sound reached
  refine ⟨sound.order, ?_, sound.served⟩
  have part : (s.finished : Multiset Task) ≤ s.taken := by
    rw [← sound.once]
    exact Multiset.le_add_right _ _
  exact Multiset.coe_le.mp part

/-- Whatever the threads have done, in whatever order: left to itself the pool comes to rest within
the work that is left, every accepted task has then been run exactly once, and a destructor that has
begun has joined all workers. -/
theorem tasks_run_once {threads : ℕ} (some_ : 0 < threads) {actions : List (Action Task)}
    (reached : run step (create threads) actions = some s) :
    (∃ more t, (∀ l ∈ more, Internal l) ∧ run step s more = some t ∧ AtRest step Internal t) ∧
      ∀ more t, (∀ l ∈ more, Internal l) → run step s more = some t →
        more.length ≤ s.work ∧
          (AtRest step Internal t →
            t.tasks = [] ∧ t.finished.Perm t.accepted ∧
              (t.stop = true → t.teardown = .joined)) := by
  have preserved : ∀ (s : ThreadPool Task) l t, s.Sound → s.step l = some t → t.Sound :=
    fun _ _ _ now possible => step_sound now possible
  have falls : ∀ (s : ThreadPool Task) l t, s.Sound → Internal l → s.step l = some t →
      t.work < s.work := fun _ _ _ _ internal possible => work_lt internal possible
  refine ⟨exists_rest preserved falls (run_sound reached), fun more t internal later => ?_⟩
  have bound := length_add_measure_le preserved falls (run_sound reached) internal later
  have whole := run_append reached later
  refine ⟨by omega, fun rest => (run_sound whole).rest ?_ rest⟩
  rw [← List.length_pos_iff, run_length whole]
  exact some_

/-- A task comes while both workers wait, another after the destructor has begun. -/
def lateTask : List (Action ℕ) :=
  [.look 0, .look 1, .enqueue 7, .stop, .enqueue 8, .notify 1, .look 1, .notifyAll]

/-- The pool behind it: one worker is busy with the task, and the other one is awake. -/
def lateTaskPool : ThreadPool ℕ :=
  { workers := [.testing, .running 7], teardown := .notified, accepted := [7], taken := [7]
    refused := [8] }

theorem reached_lateTask : run step (create 2) lateTask = some lateTaskPool := rfl

theorem taken_in_order_lateTask :
    lateTaskPool.taken ++ lateTaskPool.tasks = lateTaskPool.accepted ∧
      lateTaskPool.finished.Subperm lateTaskPool.taken ∧
      (.waiting ∈ lateTaskPool.workers →
        lateTaskPool.tasks.length ≤ lateTaskPool.notifies + lateTaskPool.looking) :=
  taken_in_order reached_lateTask

theorem tasks_run_once_lateTask :
    (∃ more t, (∀ l ∈ more, Internal l) ∧ run step lateTaskPool more = some t ∧
        AtRest step Internal t) ∧
      ∀ more t, (∀ l ∈ more, Internal l) → run step lateTaskPool more = some t →
        more.length ≤ lateTaskPool.work ∧
          (AtRest step Internal t →
            t.tasks = [] ∧ t.finished.Perm t.accepted ∧
              (t.stop = true → t.teardown = .joined)) :=
  tasks_run_once (by decide) reached_lateTask

end ThreadPool

end KeenTrader.Api
