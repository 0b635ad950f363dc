import KeenTrader.Library.Runs
import KeenTrader.Library.Containers
import KeenTrader.Engine.Constant

/-!
# HTTP requests

`Sender` keeps the handlers of its requests in a map by request id. A request is sent by a thread
of the pool, which posts a task to the main loop when it has completed; the task takes the
handlers out of the map and calls one of them. `cancel` takes them out as well. Threads come in
between any two accesses to the map, and between the access of a task and the call.
-/

namespace KeenTrader.Api

open Std (ExtTreeMap)
open Containers Runs KeenTrader.Engine

/-- The fields of an answer that are read. -/
structure Response where
  code : ℤ := 0
  status : ℤ := -1
  reason : AString := ""
  body : AString := ""
  deriving DecidableEq

namespace Response

def success (r : Response) : Bool := r.code = 0 ∧ r.status.tdiv 100 = 2

end Response

structure Error where
  code : ℤ
  status : ℤ
  errorData : AString
  deriving DecidableEq

/-- The handlers of a request, each with what it has captured. -/
structure HTTPResponseHandler (Request : Type*) where
  onDone : Option Request := none
  onFail : Option Request := none
  onError : Option Request := none

/-- A call of a handler: what it has captured, the request id, and what it is passed. -/
inductive Invocation (Request : Type*) where
  | done (request : Request) (requestId : AString) (body : AString)
  | fail (request : Request) (requestId : AString) (error : Error)
  | error (request : Request) (requestId : AString)
  deriving DecidableEq

/-- The call is one of `onDone` or `onFail` for the request. -/
def Invocation.reports {Request : Type*} (i : Invocation Request) (requestId : AString) : Bool :=
  match i with
  | .done _ id _ => id = requestId
  | .fail _ id _ => id = requestId
  | .error _ _ => false

/-- A completion task that has taken its handlers. -/
structure Task (Request : Type*) where
  requestId : AString
  response : Response
  handler : HTTPResponseHandler Request

/-- `pool` holds the requests that are under way, `tasks` the completion tasks that are posted.
What has happened is kept in `requests`, `ran` and `invocations`, and in `cancelled` the requests
that were cancelled before their task began. -/
structure Sender (Request : Type*) where
  parserMap : ExtTreeMap AString (HTTPResponseHandler Request) := ∅
  pool : List AString := []
  tasks : List (AString × Response) := []
  running : Option (Task Request) := none
  invocations : List (Invocation Request) := []
  requests : List (AString × Request) := []
  ran : List (AString × Response) := []
  cancelled : List AString := []

namespace Sender

variable {Request : Type*}

/-- The handlers that `RestClient::request` sets. -/
def handlersOf (request : Request) : HTTPResponseHandler Request :=
  { onDone := some request, onFail := some request, onError := some request }

def storeRequest (s : Sender Request) (requestId : AString)
    (callbacks : HTTPResponseHandler Request) : Sender Request :=
  { s with parserMap := s.parserMap.insertIfNew requestId callbacks }

def unregisterRequest (s : Sender Request) (requestId : AString) : Sender Request :=
  { s with parserMap := s.parserMap.erase requestId }

def sendRequest (s : Sender Request) (requestId : AString) (request : Request) : Sender Request :=
  let s := s.storeRequest requestId (handlersOf request)
  { s with pool := s.pool ++ [requestId], requests := s.requests ++ [(requestId, request)] }

/-- The HTTP request is answered, or has failed, and its completion task is posted. -/
def complete (s : Sender Request) (requestId : AString) (response : Response) : Sender Request :=
  if requestId ∈ s.pool then
    { s with pool := s.pool.erase requestId, tasks := s.tasks ++ [(requestId, response)] }
  else s

/-- The completion task takes the handlers out of the map. -/
def begin (s : Sender Request) : Sender Request :=
  match s.running, s.tasks with
  | none, (requestId, response) :: tasks =>
    { s with
      parserMap := s.parserMap.erase requestId
      tasks
      running := some
        { requestId, response, handler := (s.parserMap[requestId]?).getD {} } }
  | _, _ => s

/-- The handler that the task calls. -/
def report (t : Task Request) : List (Invocation Request) :=
  if t.response.success then
    t.handler.onDone.toList.map (.done · t.requestId t.response.body)
  else
    t.handler.onFail.toList.map
      (.fail · t.requestId ⟨t.response.code, t.response.status, t.response.body⟩)

/-- The task calls a handler, and the error handler when that throws. -/
def finish (s : Sender Request) (throws : Bool) : Sender Request :=
  match s.running with
  | some t =>
    let errors := if throws = true ∧ report t ≠ [] then
      t.handler.onError.toList.map (.error · t.requestId) else []
    let s := { s with
      running := none
      ran := s.ran ++ [(t.requestId, t.response)]
      invocations := s.invocations ++ report t ++ errors }
    s.unregisterRequest t.requestId
  | none => s

/-- A cancellation is noted where the task of the request is still to begin. -/
def cancel (s : Sender Request) (requestId : AString) : Sender Request :=
  let s := if requestId ∈ s.pool ++ s.tasks.map Prod.fst then
    { s with cancelled := s.cancelled ++ [requestId] } else s
  s.unregisterRequest requestId

inductive Step (Request : Type*) where
  | request (requestId : AString) (request : Request)
  | complete (requestId : AString) (response : Response)
  | begin
  | finish (throws : Bool)
  | cancel (requestId : AString)

def step (s : Sender Request) : Step Request → Sender Request
  | .request requestId request => s.sendRequest requestId request
  | .complete requestId response => s.complete requestId response
  | .begin => s.begin
  | .finish throws => s.finish throws
  | .cancel requestId => s.cancel requestId

/-- `generateUuid` does not give an id a second time. -/
def Fresh (s : Sender Request) : Step Request → Prop
  | .request requestId _ => requestId ∉ s.requests.map Prod.fst
  | _ => True

instance decidableFresh (s : Sender Request) : ∀ l, Decidable (s.Fresh l)
  | .request id _ => inferInstanceAs (Decidable (id ∉ s.requests.map Prod.fst))
  | .complete _ _ | .begin | .finish _ | .cancel _ => isTrue trivial

/-! ## One answer for each request -/

def reported (s : Sender Request) (requestId : AString) : List (Invocation Request) :=
  s.invocations.filter (·.reports requestId)

/-- What the handlers of a request are told of its response. -/
def outcome (requestId : AString) (request : Request) (response : Response) :
    Invocation Request :=
  if response.success then .done request requestId response.body
  else .fail request requestId ⟨response.code, response.status, response.body⟩

/-- A request is answered at most once; exactly once when its task has run and it was not
cancelled before; never when it was; and with its own response, through its own handlers. -/
structure Delivered (s : Sender Request) : Prop where
  once : ∀ id, (s.reported id).length ≤ 1
  answered : ∀ id ∈ s.ran.map Prod.fst, id ∉ s.cancelled → (s.reported id).length = 1
  never : ∀ id ∈ s.cancelled, s.reported id = []
  own : ∀ id, ∀ i ∈ s.reported id, ∃ request response,
    (id, request) ∈ s.requests ∧ (id, response) ∈ s.ran ∧ i = outcome id request response

/-- The task that runs. -/
def current (s : Sender Request) : List (AString × Response) :=
  s.running.toList.map fun t => (t.requestId, t.response)

/-- The requests whose response is there. -/
def completed (s : Sender Request) : List AString :=
  s.tasks.map Prod.fst ++ (s.current.map Prod.fst ++ s.ran.map Prod.fst)

/-- Each request is at one place: under way, posted, running, or done. The map holds the handlers
of those that are under way or posted and not cancelled. -/
structure Tracked (s : Sender Request) : Prop where
  unique : (s.requests.map Prod.fst).Nodup
  places : (s.requests.map Prod.fst).Perm (s.pool ++ s.completed)
  cancels : ∀ id ∈ s.cancelled, id ∈ s.requests.map Prod.fst
  stored : ∀ id h, s.parserMap[id]? = some h ↔ id ∈ s.pool ++ s.tasks.map Prod.fst ∧
    id ∉ s.cancelled ∧ ∃ request, (id, request) ∈ s.requests ∧ h = handlersOf request
  taken : ∀ t, s.running = some t →
    (t.requestId ∈ s.cancelled → t.handler = {}) ∧
    (t.requestId ∉ s.cancelled →
      ∃ request, (t.requestId, request) ∈ s.requests ∧ t.handler = handlersOf request)
  settled : ∀ id, (id ∈ s.ran.map Prod.fst → id ∉ s.cancelled → ∃ request response,
      (id, request) ∈ s.requests ∧ (id, response) ∈ s.ran ∧
        s.reported id = [outcome id request response]) ∧
    (id ∉ s.ran.map Prod.fst ∨ id ∈ s.cancelled → s.reported id = [])

variable {s : Sender Request}

theorem Tracked.delivered (tracked : s.Tracked) : s.Delivered := by
  have cases : ∀ id, s.reported id = [] ∨ (id ∈ s.ran.map Prod.fst ∧ id ∉ s.cancelled ∧
      ∃ request response, (id, request) ∈ s.requests ∧ (id, response) ∈ s.ran ∧
        s.reported id = [outcome id request response]) := by
    intro id
    by_cases ran : id ∈ s.ran.map Prod.fst
    · by_cases cancelled : id ∈ s.cancelled
      · exact .inl ((tracked.settled id).2 (.inr cancelled))
      · exact .inr ⟨ran, cancelled, (tracked.settled id).1 ran cancelled⟩
    · exact .inl ((tracked.settled id).2 (.inl ran))
  constructor
  · intro id
    rcases cases id with none | ⟨-, -, request, response, -, -, one⟩
    · simp [none]
    · simp [one]
  · intro id ran cancelled
    obtain ⟨request, response, -, -, one⟩ := (tracked.settled id).1 ran cancelled
    simp [one]
  · exact fun id cancelled => (tracked.settled id).2 (.inr cancelled)
  · intro id i mem
    rcases cases id with none | ⟨-, -, request, response, sent, ran, one⟩
    · simp [none] at mem
    · rw [one] at mem
      exact ⟨request, response, sent, ran, List.mem_singleton.mp mem⟩

/-- An id is at one place only. -/
theorem Tracked.nodup (tracked : s.Tracked) : (s.pool ++ s.completed).Nodup :=
  tracked.places.nodup_iff.mp tracked.unique

theorem Tracked.mem_requests (tracked : s.Tracked) (id : AString) :
    id ∈ s.requests.map Prod.fst ↔ id ∈ s.pool ∨ id ∈ s.tasks.map Prod.fst ∨
      id ∈ s.current.map Prod.fst ∨ id ∈ s.ran.map Prod.fst := by
  rw [tracked.places.mem_iff]
  simp only [completed, List.mem_append]

/-- A request whose task is running or has run is neither under way nor posted. -/
theorem Tracked.begun (tracked : s.Tracked) {id : AString}
    (begun : id ∈ s.current.map Prod.fst ∨ id ∈ s.ran.map Prod.fst) :
    id ∉ s.pool ∧ id ∉ s.tasks.map Prod.fst := by
  have nodup := tracked.nodup
  rw [completed, List.nodup_append, List.nodup_append] at nodup
  obtain ⟨-, ⟨-, -, tasks⟩, pool⟩ := nodup
  have later : id ∈ s.current.map Prod.fst ++ s.ran.map Prod.fst := List.mem_append.mpr begun
  constructor
  · exact fun mem => pool id mem id (List.mem_append_right _ later) rfl
  · exact fun mem => tasks id mem id later rfl

/-- What a step that calls no handler has to keep. -/
theorem Tracked.settled_of_same {t : Sender Request} (tracked : s.Tracked)
    (requests : ∀ x ∈ s.requests, x ∈ t.requests) (ran : t.ran = s.ran)
    (invocations : t.invocations = s.invocations)
    (cancelled : ∀ id ∈ s.ran.map Prod.fst, id ∈ t.cancelled ↔ id ∈ s.cancelled) (id : AString) :
    (id ∈ t.ran.map Prod.fst → id ∉ t.cancelled → ∃ request response,
      (id, request) ∈ t.requests ∧ (id, response) ∈ t.ran ∧
        t.reported id = [outcome id request response]) ∧
    (id ∉ t.ran.map Prod.fst ∨ id ∈ t.cancelled → t.reported id = []) := by
  have reported : t.reported id = s.reported id := by
    unfold Sender.reported
    rw [invocations]
  rw [ran, reported]
  constructor
  · intro done uncancelled
    obtain ⟨request, response, sent, answered, one⟩ :=
      (tracked.settled id).1 done (fun mem => uncancelled ((cancelled id done).mpr mem))
    exact ⟨request, response, requests _ sent, answered, one⟩
  · intro early
    apply (tracked.settled id).2
    by_cases done : id ∈ s.ran.map Prod.fst
    · exact early.imp_right (cancelled id done).mp
    · exact .inl done

theorem Tracked.request (tracked : s.Tracked) {id : AString}
    (fresh : id ∉ s.requests.map Prod.fst) (request : Request) :
    (s.sendRequest id request).Tracked := by
  have nowhere := (not_congr (tracked.mem_requests id)).mp fresh
  push Not at nowhere
  obtain ⟨pool, tasks, -, ran⟩ := nowhere
  have uncancelled : id ∉ s.cancelled := fun mem => fresh (tracked.cancels id mem)
  have unsent : ∀ r, (id, r) ∉ s.requests := fun r mem =>
    fresh (List.mem_map.mpr ⟨(id, r), mem, rfl⟩)
  have ids :
      (s.sendRequest id request).requests.map Prod.fst = s.requests.map Prod.fst ++ [id] := by
    simp [sendRequest, storeRequest]
  have keep : ∀ x ∈ s.requests, x ∈ (s.sendRequest id request).requests := fun x mem =>
    List.mem_append_left _ mem
  constructor
  · rw [ids]
    exact List.nodup_append.mpr ⟨tracked.unique, by simp, by grind⟩
  · rw [ids]
    refine (tracked.places.append_right [id]).trans ?_
    change (s.pool ++ s.completed ++ [id]).Perm (s.pool ++ [id] ++ s.completed)
    rw [List.append_assoc, List.append_assoc]
    exact List.perm_append_comm.append_left _
  · intro k mem
    rw [ids]
    exact List.mem_append_left _ (tracked.cancels k mem)
  · intro k h
    have unstored : id ∉ s.parserMap := by
      intro mem
      have stored := (tracked.stored id s.parserMap[id]).mp
        (ExtTreeMap.getElem?_eq_some_getElem mem)
      exact (List.mem_append.mp stored.1).elim pool tasks
    simp only [sendRequest, storeRequest, ExtTreeMap.getElem?_insertIfNew]
    by_cases same : id = k
    · subst same
      simp [unstored, uncancelled, unsent, eq_comm]
    · have other : ∀ r, (k, r) ∈ s.requests ++ [(id, request)] ↔ (k, r) ∈ s.requests := by
        simp [Ne.symm same]
      rw [if_neg (by simp [same]), tracked.stored]
      simp only [other]
      simp [Ne.symm same]
  · intro t running
    obtain ⟨dropped, kept⟩ := tracked.taken t running
    refine ⟨dropped, fun mem => ?_⟩
    obtain ⟨r, sent, handler⟩ := kept mem
    exact ⟨r, keep _ sent, handler⟩
  · exact tracked.settled_of_same keep rfl rfl fun _ _ => Iff.rfl

/-- A step after which the same requests are under way or posted, none is cancelled, and the map
is as it was. -/
theorem Tracked.stored_of_same {t : Sender Request} (tracked : s.Tracked)
    (parserMap : t.parserMap = s.parserMap) (requests : t.requests = s.requests)
    (cancelled : t.cancelled = s.cancelled)
    (places : ∀ id, id ∈ t.pool ++ t.tasks.map Prod.fst ↔ id ∈ s.pool ++ s.tasks.map Prod.fst)
    (id : AString) (h : HTTPResponseHandler Request) :
    t.parserMap[id]? = some h ↔ id ∈ t.pool ++ t.tasks.map Prod.fst ∧ id ∉ t.cancelled ∧
      ∃ request, (id, request) ∈ t.requests ∧ h = handlersOf request := by
  rw [parserMap, requests, cancelled, places]
  exact tracked.stored id h

theorem Tracked.complete (tracked : s.Tracked) (id : AString) (response : Response) :
    (s.complete id response).Tracked := by
  unfold Sender.complete
  split
  · rename_i pooled
    have moved : (s.pool ++ s.completed).Perm (s.pool.erase id ++
        ((s.tasks ++ [(id, response)]).map Prod.fst ++
          (s.current.map Prod.fst ++ s.ran.map Prod.fst))) := by
      refine ((List.perm_cons_erase pooled).append_right s.completed).trans ?_
      refine List.perm_iff_count.mpr fun k => ?_
      simp only [completed, List.map_append, List.map_cons, List.map_nil, List.count_append,
        List.count_cons, List.count_nil]
      omega
    refine ⟨tracked.unique, tracked.places.trans moved, tracked.cancels, ?_, tracked.taken,
      tracked.settled_of_same (fun _ mem => mem) rfl rfl fun _ _ => Iff.rfl⟩
    refine tracked.stored_of_same rfl rfl rfl fun k => ?_
    by_cases same : k = id
    · subst same
      simp [pooled]
    · simp [same, List.mem_erase_of_ne same]
  · exact tracked

theorem Tracked.cancel (tracked : s.Tracked) (id : AString) : (s.cancel id).Tracked := by
  unfold Sender.cancel
  by_cases waits : id ∈ s.pool ++ s.tasks.map Prod.fst
  · have requested : id ∈ s.requests.map Prod.fst := by
      rw [tracked.mem_requests, ← or_assoc]
      exact .inl (List.mem_append.mp waits)
    have unbegun : id ∉ s.current.map Prod.fst ∧ id ∉ s.ran.map Prod.fst := by
      have apart := mt tracked.begun fun none => (List.mem_append.mp waits).elim none.1 none.2
      exact not_or.mp apart
    simp only [if_pos waits, unregisterRequest]
    refine ⟨tracked.unique, tracked.places, ?_, ?_, ?_, ?_⟩
    · intro k mem
      rcases List.mem_append.mp mem with mem | mem
      · exact tracked.cancels k mem
      · rw [List.mem_singleton.mp mem]
        exact requested
    · intro k h
      simp only [ExtTreeMap.getElem?_erase]
      by_cases same : id = k
      · simp [same]
      · simp [same, Ne.symm same, tracked.stored k h]
    · intro t (running : s.running = some t)
      have other : t.requestId ≠ id := by
        rintro rfl
        exact unbegun.1 (by simp [current, running])
      simpa [other] using tracked.taken t running
    · refine tracked.settled_of_same (fun _ mem => mem) rfl rfl fun k ran => ?_
      have other : k ≠ id := by
        rintro rfl
        exact unbegun.2 ran
      simp [other]
  · simp only [if_neg waits, unregisterRequest]
    refine ⟨tracked.unique, tracked.places, tracked.cancels, fun k h => ?_, tracked.taken,
      tracked.settled_of_same (fun _ mem => mem) rfl rfl fun _ _ => Iff.rfl⟩
    rw [ExtTreeMap.getElem?_erase]
    by_cases same : id = k
    · subst same
      simp [waits]
    · simp [same, tracked.stored k h]

theorem Tracked.begin (tracked : s.Tracked) : s.begin.Tracked := by
  unfold Sender.begin
  split
  · rename_i id response tasks idle posted
    have waits : id ∈ s.pool ++ s.tasks.map Prod.fst := by simp [posted]
    have idle' : s.current = [] := by simp [current, idle]
    have nodup := tracked.nodup
    simp only [completed, posted, idle', List.map_cons, List.map_nil, List.nil_append] at nodup
    have left : id ∉ s.pool ∧ id ∉ tasks.map Prod.fst := by
      rw [List.nodup_append, List.cons_append, List.nodup_cons] at nodup
      exact ⟨fun mem => nodup.2.2 id mem id (by simp) rfl,
        fun mem => nodup.2.1.1 (List.mem_append_left _ mem)⟩
    refine ⟨tracked.unique, ?_, tracked.cancels, ?_, ?_,
      tracked.settled_of_same (fun _ mem => mem) rfl rfl fun _ _ => Iff.rfl⟩
    · refine tracked.places.trans (List.Perm.append_left _ ?_)
      refine List.perm_iff_count.mpr fun k => ?_
      simp only [completed, current, idle, posted, Option.toList_none, Option.toList_some,
        List.map_cons, List.map_nil, List.count_append, List.count_cons, List.count_nil]
      omega
    · intro k h
      simp only [ExtTreeMap.getElem?_erase]
      by_cases same : id = k
      · subst same
        simp [left.1, left.2]
      · simp [same, Ne.symm same, tracked.stored k h, posted]
    · intro t running
      obtain rfl := Option.some.inj running
      constructor
      · intro cancelled
        have unstored : s.parserMap[id]? = none := by
          refine Option.eq_none_iff_forall_ne_some.mpr fun h stored => ?_
          exact ((tracked.stored id h).mp stored).2.1 cancelled
        simp [unstored]
      · intro uncancelled
        have requested : id ∈ s.requests.map Prod.fst := by
          rw [tracked.mem_requests, ← or_assoc]
          exact .inl (List.mem_append.mp waits)
        obtain ⟨⟨k, request⟩, sent, rfl⟩ := List.mem_map.mp requested
        have stored := (tracked.stored k (handlersOf request)).mpr
          ⟨waits, uncancelled, request, sent, rfl⟩
        exact ⟨request, sent, by simp [stored]⟩
  · exact tracked

theorem report_of_empty {t : Task Request} (handler : t.handler = {}) : report t = [] := by
  simp [report, handler]

theorem report_of_handlers {t : Task Request} {request : Request}
    (handler : t.handler = handlersOf request) :
    report t = [outcome t.requestId request t.response] := by
  unfold report outcome
  rw [handler]
  split <;> rfl

/-- A task reports for its own request. -/
theorem filter_report (t : Task Request) (id : AString) :
    (report t).filter (·.reports id) = if t.requestId = id then report t else [] := by
  unfold report
  split
  · cases t.handler.onDone <;> simp [Invocation.reports, List.filter_cons]
  · cases t.handler.onFail <;> simp [Invocation.reports, List.filter_cons]

theorem filter_errors (t : Task Request) (id : AString) (throws : Bool) :
    (if throws = true ∧ report t ≠ [] then
      t.handler.onError.toList.map (Invocation.error · t.requestId) else []).filter
        (·.reports id) = [] := by
  split
  · cases t.handler.onError <;> simp [Invocation.reports]
  · rfl

theorem Tracked.finish (tracked : s.Tracked) (throws : Bool) : (s.finish throws).Tracked := by
  unfold Sender.finish
  split
  · rename_i t running
    have mem : t.requestId ∈ s.current.map Prod.fst := by simp [current, running]
    have begun := tracked.begun (.inl mem)
    have unrun : t.requestId ∉ s.ran.map Prod.fst := by
      have nodup := tracked.nodup
      rw [completed, ← List.append_assoc, ← List.append_assoc, List.nodup_append] at nodup
      exact fun ran => nodup.2.2 _ (List.mem_append_right _ mem) _ ran rfl
    refine ⟨tracked.unique, ?_, tracked.cancels, ?_, ?_, ?_⟩
    · refine tracked.places.trans (List.Perm.append_left _ ?_)
      refine List.perm_iff_count.mpr fun k => ?_
      simp only [completed, unregisterRequest, current, running, Option.toList_none,
        Option.toList_some, List.map_append, List.map_cons, List.map_nil, List.count_append,
        List.count_cons, List.count_nil]
      omega
    · intro k h
      simp only [unregisterRequest, ExtTreeMap.getElem?_erase]
      by_cases same : t.requestId = k
      · subst same
        simp [begun.1, begun.2]
      · simp [same, tracked.stored k h]
    · intro t none
      simp [unregisterRequest] at none
    · intro k
      simp only [unregisterRequest, reported, List.filter_append, filter_report, filter_errors,
        List.append_nil]
      have before := tracked.settled k
      by_cases same : t.requestId = k
      · subst same
        have none : s.reported t.requestId = [] := before.2 (.inl unrun)
        rw [reported] at none
        simp only [none, if_pos, List.nil_append]
        obtain ⟨dropped, kept⟩ := tracked.taken t running
        constructor
        · intro _ uncancelled
          obtain ⟨request, sent, handler⟩ := kept uncancelled
          exact ⟨request, t.response, sent, by simp, report_of_handlers handler⟩
        · rintro (absent | cancelled)
          · simp at absent
          · exact report_of_empty (dropped cancelled)
      · simpa [same, Ne.symm same, reported] using before
  · exact tracked

theorem Tracked.step (tracked : s.Tracked) (l : Step Request) (fresh : s.Fresh l) :
    (s.step l).Tracked := by
  cases l with
  | request id request => exact tracked.request fresh request
  | complete id response => exact tracked.complete id response
  | begin => exact tracked.begin
  | finish throws => exact tracked.finish throws
  | cancel id => exact tracked.cancel id

/-- Through every interleaving, each request is answered as it should be. -/
theorem answered_once (steps : List (Step Request))
    (fresh : Meets step Fresh ({} : Sender Request) steps) :
    Always step Delivered ({} : Sender Request) steps := by
  have start : ({} : Sender Request).Tracked := by
    constructor <;> simp [completed, current, reported]
  have tracked : Always step Tracked ({} : Sender Request) steps :=
    always_of_meets (fun s l now fresh => Tracked.step now l fresh) start fresh
  exact tracked.mono fun s now => now.delivered

/-- Two requests, of which the second is cancelled while the first has just been answered. -/
theorem answered_once_two : Always step Delivered ({} : Sender ℕ)
    [.request "a" 1, .request "b" 2, .complete "b" { status := 200, body := "late" },
      .complete "a" { status := 500, body := "down" }, .cancel "b", .begin, .finish false, .begin,
      .finish true] :=
  answered_once _ (by decide +kernel)

end Sender

end KeenTrader.Api
