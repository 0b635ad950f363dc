import KeenTrader.Api.Sender
import KeenTrader.Api.ThreadPool

/-!
# Requests on the thread pool

The sender together with the pool that its requests run on and the loop that runs its completion
tasks. The pool decides when a request is under way, and the sender learns of it when a worker has
finished: so what the pool guarantees about its tasks is what every request is promised.
-/

namespace KeenTrader.Api

open Transitions KeenTrader.Engine

/-- A task of the pool is the request whose id it is. -/
structure RestClient (Request : Type*) where
  pool : ThreadPool AString
  sender : Sender Request := {}

namespace RestClient

variable {Request : Type*}

/-- The pool is never stopped while there are requests: it is destroyed with the program. -/
inductive Action (Request : Type*) where
  | request (requestId : AString) (request : Request)
  | notify (worker : ℕ)
  | notifyNobody
  | wake (worker : ℕ)
  | look (worker : ℕ)
  | complete (worker : ℕ) (response : Response)
  | begin
  | finish (throws : Bool)
  | cancel (requestId : AString)

def onPool (s : RestClient Request) (action : ThreadPool.Action AString) :
    Option (RestClient Request) :=
  (s.pool.step action).map fun pool => { s with pool }

def step (s : RestClient Request) : Action Request → Option (RestClient Request)
  | .request requestId request =>
    if s.sender.Fresh (.request requestId request) then
      some
        { pool := s.pool.enqueue requestId, sender := s.sender.sendRequest requestId request }
    else none
  | .notify i => s.onPool (.notify i)
  | .notifyNobody => s.onPool .notifyNobody
  | .wake i => s.onPool (.wake i)
  | .look i => s.onPool (.look i)
  | .complete i response =>
    match s.pool.workers[i]? with
    | some (.running requestId) =>
      (s.pool.step (.finish i)).map fun pool =>
        { pool, sender := s.sender.complete requestId response }
    | _ => none
  | .begin =>
    if s.sender.running.isNone ∧ s.sender.tasks ≠ [] then some { s with sender := s.sender.begin }
    else none
  | .finish throws =>
    if s.sender.running.isSome then some { s with sender := s.sender.finish throws } else none
  | .cancel requestId => some { s with sender := s.sender.cancel requestId }

/-- What goes on without new requests and cancellations. -/
def Internal : Action Request → Prop
  | .notify _ | .notifyNobody | .look _ | .complete _ _ | .begin | .finish _ => True
  | .request _ _ | .wake _ | .cancel _ => False

/-- The requests that are under way are the tasks that the pool has left. -/
structure Joint (s : RestClient Request) : Prop where
  sound : s.pool.Sound
  alive : s.pool.teardown = .alive
  tracked : s.sender.Tracked
  same : (s.sender.pool : Multiset AString) =
    s.pool.tasks + (s.pool.workers.map ThreadPool.held).sum

variable {s t : RestClient Request}

theorem not_stop (joint : Joint s) : s.pool.stop = false := by
  simp [ThreadPool.stop, joint.alive]

theorem joint_request (joint : Joint s) {id : AString} {request : Request}
    (fresh : s.sender.Fresh (.request id request)) :
    Joint { pool := s.pool.enqueue id, sender := s.sender.sendRequest id request } := by
  have running := not_stop joint
  refine ⟨ThreadPool.sound_enqueue joint.sound id, ?_, joint.tracked.request fresh request, ?_⟩
  · simp [ThreadPool.enqueue, running, joint.alive]
  · simp only [Sender.sendRequest, Sender.storeRequest, ThreadPool.enqueue, running]
    rw [← Multiset.coe_add, joint.same]
    simp only [Bool.false_eq_true, if_false]
    rw [← Multiset.coe_add]
    abel

/-- Steps of the pool by which no task is accepted or finished. -/
theorem joint_onPool (joint : Joint s) {action : ThreadPool.Action AString}
    (possible : s.onPool action = some t)
    (same : ∀ pool, s.pool.step action = some pool → pool.accepted = s.pool.accepted ∧
      pool.finished = s.pool.finished ∧ pool.teardown = s.pool.teardown) : Joint t := by
  obtain ⟨pool, stepped, rfl⟩ := Option.map_eq_some_iff.mp possible
  obtain ⟨accepted, finished, teardown⟩ := same pool stepped
  have sound := ThreadPool.step_sound joint.sound stepped
  refine ⟨sound, teardown.trans joint.alive, joint.tracked, ?_⟩
  have before := joint.sound.places
  have after := sound.places
  rw [accepted, finished, ← before] at after
  rw [joint.same]
  exact (add_right_cancel after).symm

theorem pool_step_quiet {pool next : ThreadPool AString} {action : ThreadPool.Action AString}
    (quiet : (∃ i, action = .notify i) ∨ action = .notifyNobody ∨ (∃ i, action = .wake i) ∨
      ∃ i, action = .look i)
    (possible : pool.step action = some next) :
    next.accepted = pool.accepted ∧ next.finished = pool.finished ∧
      next.teardown = pool.teardown := by
  rcases quiet with ⟨i, rfl⟩ | rfl | ⟨i, rfl⟩ | ⟨i, rfl⟩
  all_goals
    simp only [ThreadPool.step] at possible
    split at possible
    · obtain rfl := Option.some.inj possible
      first
        | exact ⟨rfl, rfl, rfl⟩
        | unfold ThreadPool.look; split <;> exact ⟨rfl, rfl, rfl⟩
    · contradiction

theorem joint_complete (joint : Joint s) {i : ℕ} {id : AString} {response : Response}
    {pool : ThreadPool AString} (here : s.pool.workers[i]? = some (.running id))
    (stepped : s.pool.step (.finish i) = some pool) :
    Joint { pool, sender := s.sender.complete id response } := by
  have sound := ThreadPool.step_sound joint.sound stepped
  simp only [ThreadPool.step, here, Option.some.injEq] at stepped
  subst stepped
  refine ⟨sound, joint.alive, joint.tracked.complete id response, ?_⟩
  have fewer : (s.pool.workers.map ThreadPool.held).sum =
      ((s.pool.workers.set i .testing).map ThreadPool.held).sum + {id} := by
    have change_ := sum_map_set ThreadPool.held here .testing
    simpa [ThreadPool.held] using change_.symm
  have mem : id ∈ s.sender.pool := by
    have there : id ∈ (s.sender.pool : Multiset AString) := by
      rw [joint.same, fewer]
      simp
    exact there
  simp only [Sender.complete, if_pos mem]
  rw [← Multiset.coe_erase, joint.same, fewer, ← add_assoc,
    Multiset.erase_add_right_pos _ (Multiset.mem_singleton_self id), Multiset.erase_singleton,
    add_zero]
  rfl

theorem step_joint {l : Action Request} (joint : Joint s) (possible : s.step l = some t) :
    Joint t := by
  cases l with
  | request id request =>
    simp only [step] at possible
    split at possible
    · rename_i fresh
      obtain rfl := Option.some.inj possible
      exact joint_request joint fresh
    · contradiction
  | notify i => exact joint_onPool joint possible fun _ => pool_step_quiet (.inl ⟨i, rfl⟩)
  | notifyNobody => exact joint_onPool joint possible fun _ => pool_step_quiet (.inr (.inl rfl))
  | wake i =>
    exact joint_onPool joint possible fun _ => pool_step_quiet (.inr (.inr (.inl ⟨i, rfl⟩)))
  | look i =>
    exact joint_onPool joint possible fun _ => pool_step_quiet (.inr (.inr (.inr ⟨i, rfl⟩)))
  | complete i response =>
    simp only [step] at possible
    split at possible
    · rename_i id here
      obtain ⟨pool, stepped, rfl⟩ := Option.map_eq_some_iff.mp possible
      exact joint_complete joint here stepped
    · contradiction
  | begin =>
    simp only [step] at possible
    split at possible
    · obtain rfl := Option.some.inj possible
      refine ⟨joint.sound, joint.alive, joint.tracked.begin, ?_⟩
      rw [← joint.same]
      unfold Sender.begin
      split <;> rfl
    · contradiction
  | finish throws =>
    simp only [step] at possible
    split at possible
    · obtain rfl := Option.some.inj possible
      refine ⟨joint.sound, joint.alive, joint.tracked.finish throws, ?_⟩
      rw [← joint.same]
      unfold Sender.finish
      split <;> rfl
    · contradiction
  | cancel id =>
    obtain rfl := Option.some.inj possible
    refine ⟨joint.sound, joint.alive, joint.tracked.cancel id, ?_⟩
    rw [← joint.same]
    unfold Sender.cancel
    split <;> rfl

/-! ## Every request is answered -/

/-- What is left to do, in the pool and in the loop. -/
def work (s : RestClient Request) : ℕ :=
  3 * s.pool.work + 2 * s.sender.tasks.length + s.sender.running.toList.length

theorem work_lt {l : Action Request} (internal : Internal l) (possible : s.step l = some t) :
    t.work < s.work := by
  have onPool {a : ThreadPool.Action AString} (inner : ThreadPool.Internal a)
      (possible : s.onPool a = some t) : t.work < s.work := by
    obtain ⟨pool, stepped, rfl⟩ := Option.map_eq_some_iff.mp possible
    have less := ThreadPool.work_lt inner stepped
    simp only [work]
    omega
  cases l with
  | request | wake | cancel => exact internal.elim
  | notify i => exact onPool (a := .notify i) trivial possible
  | notifyNobody => exact onPool (a := .notifyNobody) trivial possible
  | look i => exact onPool (a := .look i) trivial possible
  | complete i response =>
    simp only [step] at possible
    split at possible
    · rename_i id here
      obtain ⟨pool, stepped, rfl⟩ := Option.map_eq_some_iff.mp possible
      have less := ThreadPool.work_lt (l := .finish i) trivial stepped
      have more : (s.sender.complete id response).tasks.length ≤ s.sender.tasks.length + 1 := by
        unfold Sender.complete
        split <;> simp
      have same : (s.sender.complete id response).running = s.sender.running := by
        unfold Sender.complete
        split <;> rfl
      simp only [work, same]
      omega
    · contradiction
  | begin =>
    simp only [step] at possible
    split at possible
    · rename_i ready
      obtain rfl := Option.some.inj possible
      obtain ⟨⟨id, response⟩, tasks, cons⟩ := List.exists_cons_of_ne_nil ready.2
      have none := Option.isNone_iff_eq_none.mp ready.1
      simp only [work, Sender.begin, none, cons, List.length_cons, Option.toList_some,
        Option.toList_none, List.length_nil]
      omega
    · contradiction
  | finish throws =>
    simp only [step] at possible
    split at possible
    · rename_i busy
      obtain rfl := Option.some.inj possible
      obtain ⟨task, some_⟩ := Option.isSome_iff_exists.mp busy
      simp [work, Sender.finish, some_, Sender.unregisterRequest]
    · contradiction

theorem step_length {l : Action Request} (possible : s.step l = some t) :
    t.pool.workers.length = s.pool.workers.length := by
  have onPool {action : ThreadPool.Action AString} (possible : s.onPool action = some t) :
      t.pool.workers.length = s.pool.workers.length := by
    obtain ⟨pool, stepped, rfl⟩ := Option.map_eq_some_iff.mp possible
    exact ThreadPool.step_length stepped
  cases l with
  | notify i => exact onPool possible
  | notifyNobody => exact onPool possible
  | wake i => exact onPool possible
  | look i => exact onPool possible
  | request id request =>
    simp only [step] at possible
    split at possible
    · obtain rfl := Option.some.inj possible
      exact ThreadPool.step_length (s := s.pool) (l := .enqueue id) rfl
    · contradiction
  | complete i response =>
    simp only [step] at possible
    split at possible
    · obtain ⟨pool, stepped, rfl⟩ := Option.map_eq_some_iff.mp possible
      exact ThreadPool.step_length stepped
    · contradiction
  | begin | finish throws =>
    simp only [step] at possible
    split at possible
    · obtain rfl := Option.some.inj possible
      rfl
    · contradiction
  | cancel id =>
    obtain rfl := Option.some.inj possible
    rfl

/-- At rest nothing is under way, posted or running. -/
theorem Joint.rest (joint : Joint s) (some_ : s.pool.workers ≠ [])
    (rest : AtRest step Internal s) :
    s.sender.pool = [] ∧ s.sender.tasks = [] ∧ s.sender.running = none := by
  have pool_rest : AtRest ThreadPool.step ThreadPool.Internal s.pool := by
    intro action internal
    have onPool {l : Action Request} (inner : Internal l)
        (same : s.step l = s.onPool action) : s.pool.step action = none := by
      have stuck := rest l inner
      rw [same] at stuck
      exact Option.map_eq_none_iff.mp stuck
    cases action with
    | enqueue | wake | stop => exact internal.elim
    | notify i => exact onPool (l := .notify i) trivial rfl
    | notifyNobody => exact onPool (l := .notifyNobody) trivial rfl
    | look i => exact onPool (l := .look i) trivial rfl
    | finish i =>
      have stuck := rest (.complete i {}) trivial
      cases here : s.pool.workers[i]? with
      | none => simp [ThreadPool.step, here]
      | some worker =>
        cases worker with
        | running id => simp [step, ThreadPool.step, here] at stuck
        | testing | waiting | returned => simp [ThreadPool.step, here]
    | notifyAll => simp [ThreadPool.step, joint.alive]
    | join => simp [ThreadPool.step, joint.alive]
  have running : s.sender.running = none := by
    cases busy : s.sender.running with
    | none => rfl
    | some task =>
      have stuck := rest (.finish false) trivial
      simp [step, busy] at stuck
  have tasks : s.sender.tasks = [] := by
    by_contra posted
    have stuck := rest .begin trivial
    simp [step, running, posted] at stuck
  refine ⟨?_, tasks, running⟩
  obtain ⟨-, finished, -⟩ := joint.sound.rest some_ pool_rest
  have places := joint.sound.places
  rw [← joint.same, ← Multiset.coe_eq_coe.mpr finished] at places
  exact (Multiset.coe_eq_zero _).mp (add_eq_right.mp places)

theorem joint_create (threads : ℕ) :
    Joint ({ pool := .create threads } : RestClient Request) where
  sound := ThreadPool.sound_create threads
  alive := rfl
  tracked := by constructor <;> simp [Sender.completed, Sender.current, Sender.reported]
  same := by simp [ThreadPool.create, ThreadPool.held]

/-- Whatever has been requested and cancelled, in whatever interleaving of the pool's threads and
the loop: left to itself everything comes to rest within the work that is left, and then each
request that was not cancelled in time has been answered exactly once, with its own response and
through its own handlers, and each other one never. -/
theorem requests_answered {threads : ℕ} (some_ : 0 < threads) {actions : List (Action Request)}
    (reached : run step { pool := .create threads } actions = some s)
    {more : List (Action Request)} (internal : ∀ l ∈ more, Internal l)
    (later : run step s more = some t) :
    more.length ≤ s.work ∧
      (AtRest step Internal t → t.sender.Delivered ∧
        ∀ id ∈ t.sender.requests.map Prod.fst,
          (t.sender.reported id).length = if id ∈ t.sender.cancelled then 0 else 1) := by
  have preserved : ∀ (s : RestClient Request) l t, Joint s → s.step l = some t → Joint t :=
    fun _ _ _ now possible => step_joint now possible
  have falls : ∀ (s : RestClient Request) l t, Joint s → Internal l → s.step l = some t →
      t.work < s.work := fun _ _ _ _ internal possible => work_lt internal possible
  have joint := run_invariant preserved (joint_create threads) reached
  have bound := length_add_measure_le preserved falls joint internal later
  refine ⟨by omega, fun rest => ?_⟩
  have whole := run_append reached later
  have joint := run_invariant preserved (joint_create threads) whole
  have length : t.pool.workers.length = threads :=
    run_invariant (P := fun t : RestClient Request => t.pool.workers.length = threads)
      (fun _ _ _ now possible => (step_length possible).trans now) (by simp [ThreadPool.create])
      whole
  have workers : t.pool.workers ≠ [] := by
    rw [← List.length_pos_iff, length]
    exact some_
  obtain ⟨pool, tasks, running⟩ := joint.rest workers rest
  have delivered := joint.tracked.delivered
  refine ⟨delivered, fun id mem => ?_⟩
  split
  · rename_i cancelled
    rw [delivered.never id cancelled, List.length_nil]
  · rename_i uncancelled
    have places := joint.tracked.places
    simp only [Sender.completed, Sender.current, pool, tasks, running, List.map_nil,
      Option.toList_none, List.nil_append] at places
    exact delivered.answered id (places.mem_iff.mp mem) uncancelled

/-- Two requests on one worker, the second of them cancelled while it waits. -/
def oneCancelled : List (Action ℕ) :=
  [.request "a" 1, .request "b" 2, .notifyNobody, .look 0, .cancel "b"]

/-- The rest: both are answered by the exchange, and both completion tasks run. -/
def bothAnswered : List (Action ℕ) :=
  [.notifyNobody, .complete 0 { status := 200, body := "ok" }, .look 0, .begin,
    .complete 0 { status := 200, body := "late" }, .finish false, .begin, .look 0, .finish false]

/-- The state in which a run ends. -/
def after (actions : List (Action ℕ)) : RestClient ℕ :=
  (run step { pool := .create 1 } actions).getD { pool := .create 0 }

theorem run_after {actions : List (Action ℕ)}
    (possible : (run step { pool := .create 1 } actions).isSome = true) :
    run step { pool := .create 1 } actions = some (after actions) := by
  obtain ⟨s, reached⟩ := Option.isSome_iff_exists.mp possible
  rw [after, reached]
  rfl

theorem run_bothAnswered :
    run step (after oneCancelled) bothAnswered = some (after (oneCancelled ++ bothAnswered)) := by
  have whole := run_after (show (run step _ (oneCancelled ++ bothAnswered)).isSome = true by
    decide +kernel)
  rw [run_append_eq, run_after (by decide +kernel)] at whole
  exact whole

theorem requests_answered_oneCancelled :
    bothAnswered.length ≤ (after oneCancelled).work ∧
      (AtRest step Internal (after (oneCancelled ++ bothAnswered)) →
        (after (oneCancelled ++ bothAnswered)).sender.Delivered ∧
        ∀ id ∈ (after (oneCancelled ++ bothAnswered)).sender.requests.map Prod.fst,
          ((after (oneCancelled ++ bothAnswered)).sender.reported id).length =
            if id ∈ (after (oneCancelled ++ bothAnswered)).sender.cancelled then 0 else 1) :=
  requests_answered Nat.one_pos (run_after (by decide +kernel : (run step _ oneCancelled).isSome))
    (by simp [bothAnswered, Internal]) run_bothAnswered

end RestClient

end KeenTrader.Api
