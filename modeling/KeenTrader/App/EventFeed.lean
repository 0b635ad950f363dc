import KeenTrader.Library.Transitions
import KeenTrader.Engine.Listings
import KeenTrader.App.EventOrder

/-!
# From the exchanges to the order management engine

`BaseExchange::on_tick` and its like put two events for a record, one with the type of its kind and
one with a type that ends in a key of the record. They do so on any thread, and other threads come
in between the two. The emitter queues the events and the main loop delivers them to the handlers;
`OmsEngine` is registered for the types of the kinds.
-/

namespace KeenTrader.App

open Containers Runs KeenTrader.Engine

/-- The key in the type of the second event; contracts are put once. -/
def secondKey : OmsEvent → Option AString
  | .tick t => some t.ktSymbol
  | .trade t => some t.ktSymbol
  | .order o => some o.ktOrderid
  | .position p => some p.ktSymbol
  | .account a => some a.ktAccountid
  | .quote q => some q.ktSymbol
  | .contract _ => none

/-- The second event of a record. -/
def keyed (e : OmsEvent) : Option (Event OmsEvent) :=
  (secondKey e).map fun key => ⟨eventType e ++ key, e⟩

/-- What a thread has still to put of the record that it passes on. -/
inductive Owed where
  | nothing
  | both (e : OmsEvent)
  | second (e : OmsEvent) (key : AString) (own : secondKey e = some key)

namespace Owed

def afterFirst (e : OmsEvent) : Owed :=
  match own : secondKey e with
  | some key => second e key own
  | none => nothing

/-- The record, if no event of it has been put. -/
def record : Owed → Multiset OmsEvent
  | both e => {e}
  | nothing | second _ _ _ => 0

/-- The second event, if there is one and it has not been put. -/
def keyed : Owed → Multiset (Event OmsEvent)
  | both e => ↑(App.keyed e).toList
  | second e key _ => {⟨eventType e ++ key, e⟩}
  | nothing => 0

end Owed

/-- `called` are the records with which a member function of an exchange has been called, and
`pushed` those whose first event has been put, in this order. -/
structure EventFeed where
  emitter : Emitter
  threads : List Owed
  oms : OmsEngine := {}
  called : List OmsEvent := []
  pushed : List OmsEvent := []

namespace EventFeed

/-- What the emitter does apart from `put`. The handlers of other objects may come and go. -/
def Foreign : EventEmitter.Step OmsEvent EngineClass Unit → Prop
  | .put _ => False
  | .register _ handler _ | .unRegister _ handler | .registerGeneral handler
  | .unregisterGeneral handler => handler.callable ≠ .oms
  | _ => True

inductive Step where
  | call (thread : ℕ) (e : OmsEvent)
  | put (thread : ℕ)
  | emitter (l : EventEmitter.Step OmsEvent EngineClass Unit) (foreign : Foreign l)

/-- Both engines are registered, and `threads` threads run exchanges. -/
def start (place : EngineClass → AString → ℕ) (threads : ℕ) : EventFeed :=
  { emitter := App.emitter place, threads := List.replicate threads .nothing }

/-- A thread that has nothing else to do passes a record on. -/
def call (s : EventFeed) (thread : ℕ) (e : OmsEvent) : EventFeed :=
  match s.threads[thread]? with
  | some .nothing =>
    { s with threads := s.threads.set thread (.both e), called := s.called ++ [e] }
  | _ => s

/-- A thread puts its next event, unless it has to wait for the lock. -/
def put (s : EventFeed) (thread : ℕ) : EventFeed :=
  if s.emitter.locked then s
  else
    match s.threads[thread]? with
    | some (.both e) =>
      { s with
        emitter := s.emitter.put ⟨eventType e, e⟩
        threads := s.threads.set thread (.afterFirst e)
        pushed := s.pushed ++ [e] }
    | some (.second e key _) =>
      { s with
        emitter := s.emitter.put ⟨eventType e ++ key, e⟩
        threads := s.threads.set thread .nothing }
    | _ => s

section Enumerated
variable (enum : Enumeration AString OrderData)

/-- A call of a handler, as far as the order management engine is concerned. -/
def handle (oms : OmsEngine) (call : EngineHandler × Event OmsEvent) : OmsEngine :=
  if call.1 = omsHandler then oms.process enum call.2.data else oms

def step (s : EventFeed) : Step → EventFeed
  | .call thread e => s.call thread e
  | .put thread => s.put thread
  | .emitter l _ =>
    let emitter := s.emitter.step l
    { s with
      emitter
      oms := (emitter.calls.drop s.emitter.calls.length).foldl (handle enum) s.oms }

def run (place : EngineClass → AString → ℕ) (threads : ℕ) (steps : List Step) : EventFeed :=
  steps.foldl (step enum) (start place threads)

end Enumerated

/-! ## The types of events -/

/-- A record whose event has the type of its kind. -/
def record? (e : Event OmsEvent) : Option OmsEvent :=
  if e.type = eventType e.data then some e.data else none

/-- The events that do not have the type of their kind. -/
def seconds (events : List (Event OmsEvent)) : List (Event OmsEvent) :=
  events.filter fun e => (record? e).isNone

theorem seconds_append (xs ys : List (Event OmsEvent)) :
    seconds (xs ++ ys) = seconds xs ++ seconds ys := List.filter_append ..

/-- The two kinds of events that are put. -/
def Put (e : Event OmsEvent) : Prop :=
  e.type = eventType e.data ∨ ∃ key, secondKey e.data = some key ∧ e.type = eventType e.data ++ key

/-- The calls are those of the handlers of each event, one event after the other. -/
def Delivered (events : List (Event OmsEvent)) (calls : List (EngineHandler × Event OmsEvent)) :
    Prop :=
  ∃ handlers : List (List EngineHandler), handlers.length = events.length ∧
    calls = (handlers.zip events).flatMap fun x => x.1.map (·, x.2)

/-- The types that `OmsEngine` is registered for. -/
def omsTypes : List AString :=
  ["eTick.", "eOrder.", "eTrade.", "ePosition.", "eAccount.", "eContract.", "eQuote."]

theorem secondKey_ne_empty {e : OmsEvent} {key : AString} (found : secondKey e = some key) :
    key ≠ "" := by
  rintro rfl
  have empty := congrArg (Option.map String.toList) found
  cases e <;> simp [secondKey, TickData.ktSymbol, TradeData.ktSymbol, OrderData.ktOrderid,
    PositionData.ktSymbol, AccountData.ktAccountid, QuoteData.ktSymbol, ktSymbolOf] at empty

theorem eventType_mem (e : OmsEvent) : eventType e ∈ omsTypes := by
  cases e <;> simp [eventType, omsTypes]

/-- A type with a key behind it is none of the types. -/
theorem eventType_append_not_mem (e : OmsEvent) {key : AString} (filled : key ≠ "") :
    eventType e ++ key ∉ omsTypes := by
  have chars : key.toList ≠ [] := by simpa using filled
  cases e <;> simp [eventType, omsTypes, ← String.toList_inj, chars]

/-- A second event is not taken for a first one. -/
theorem record?_second {e : OmsEvent} {key : AString} (own : secondKey e = some key) :
    record? ⟨eventType e ++ key, e⟩ = none := by
  have other : eventType e ++ key ≠ eventType e := by
    intro same
    refine eventType_append_not_mem e (secondKey_ne_empty own) ?_
    rw [same]
    exact eventType_mem e
  simp [record?, other]

theorem Put.type_mem_iff {e : Event OmsEvent} (put : Put e) :
    e.type ∈ omsTypes ↔ e.type = eventType e.data := by
  constructor
  · intro mem
    rcases put with first | ⟨key, found, type⟩
    · exact first
    · rw [type] at mem
      exact absurd mem (eventType_append_not_mem _ (secondKey_ne_empty found))
  · intro first
    rw [first]
    exact eventType_mem _

/-! ## Who hears of an event -/

/-- The order management engine is called once for an event of its types, and for no other. -/
def Heard (emitter : Emitter) : Prop :=
  ∀ e, (emitter.process e).count omsHandler = if e.type ∈ omsTypes then 1 else 0

theorem count_register {emitter : Emitter} {type : AString} {handler : EngineHandler} {position : ℕ}
    (other : handler ≠ omsHandler) (t : AString) :
    ((emitter.register type handler position).handlers t).count omsHandler =
      (emitter.handlers t).count omsHandler := by
  rw [EventEmitter.register_handlers]
  split
  · rename_i here
    have perm := List.perm_insertIdx handler (emitter.handlers type)
      (min_le_right position (emitter.handlers type).length)
    rw [here.1, perm.count_eq, List.count_cons_of_ne other]
  · rfl

theorem count_eraseP {hs : List EngineHandler} {handler : EngineHandler}
    (other : handler.callable ≠ .oms) :
    (hs.eraseP (·.callable = handler.callable)).count omsHandler = hs.count omsHandler := by
  rcases List.exists_or_eq_self_of_eraseP (·.callable = handler.callable) hs with
    same | ⟨h, before, after, -, found, split, rest⟩
  · rw [same]
  · have ne : h ≠ omsHandler := by
      rintro rfl
      exact other (of_decide_eq_true found).symm
    rw [rest, split, List.count_append, List.count_append, List.count_cons_of_ne ne]

theorem heard_emitter (place : EngineClass → AString → ℕ) : Heard (App.emitter place) := by
  intro e
  have cta (emitter : Emitter) (types : List AString) :
      ((types.foldl (fun emitter type => emitter.register type ctaHandler (place .cta type))
        emitter).handlers e.type).count omsHandler =
        (emitter.handlers e.type).count omsHandler := by
    induction types generalizing emitter with
    | nil => rfl
    | cons type types ih => exact (ih _).trans (count_register (by decide) _)
  rw [CtaEngine.process_emitter, App.emitter, registerCta, cta]
  split
  · rename_i mem
    rw [CtaEngine.handlers_registerOms place mem]
    rfl
  · rename_i foreign
    rw [registerOms, EventEmitter.foldl_register_handlers _ _ (by decide)]
    exact congrArg _ (if_neg foreign)

variable {enum : Enumeration AString OrderData} {emitter : Emitter} {s : EventFeed}
  {l : EventEmitter.Step OmsEvent EngineClass Unit}

theorem Heard.step (heard : Heard emitter) (foreign : Foreign l) : Heard (emitter.step l) := by
  intro e
  refine Eq.trans ?_ (heard e)
  unfold EventEmitter.process
  cases l with
  | put _ => exact absurd foreign id
  | register type handler position =>
    have other : handler ≠ omsHandler := by
      rintro rfl
      exact foreign rfl
    simp only [EventEmitter.step]
    split
    · rfl
    · rw [List.count_append, List.count_append, count_register other,
        EventEmitter.register_generalHandlers]
  | unRegister type handler =>
    simp only [EventEmitter.step]
    split
    · rfl
    · rw [List.count_append, List.count_append]
      congr 1
      by_cases here : e.type = type
      · subst here
        simp only [EventEmitter.unRegister, Function.update_self]
        exact count_eraseP foreign
      · simp [EventEmitter.unRegister, here]
  | registerGeneral handler =>
    have other : handler ≠ omsHandler := by
      rintro rfl
      exact foreign rfl
    simp only [EventEmitter.step, EventEmitter.registerGeneral]
    split_ifs
    · rfl
    · rfl
    · simp [List.count_append, other]
  | unregisterGeneral handler =>
    simp only [EventEmitter.step, EventEmitter.unregisterGeneral, List.count_append]
    rw [count_eraseP foreign]
  | run =>
    simp only [EventEmitter.step, EventEmitter.run]
    split <;> rfl
  | begin =>
    simp only [EventEmitter.step, EventEmitter.begin]
    split <;> rfl
  | startFlag =>
    simp only [EventEmitter.step]
    split <;> rfl
  | stopJoin =>
    simp only [EventEmitter.step, EventEmitter.join]
    split <;> rfl
  | startThread | stopFlag | stopSet | finish => rfl

/-! ## What the engine has processed -/

/-- The engine is called back with each event once, and only where the main loop begins with it. -/
theorem step_foreign (foreign : Foreign l) :
    (emitter.step l).accepted = emitter.accepted ∧
      ((emitter.step l).processed = emitter.processed ∧ (emitter.step l).calls = emitter.calls ∨
        ∃ e ∈ emitter.tasks, (emitter.step l).processed = emitter.processed ++ [e] ∧
          (emitter.step l).calls = emitter.calls ++ (emitter.process e).map (·, e)) := by
  cases l with
  | put _ => exact absurd foreign id
  | begin =>
    simp only [EventEmitter.step, EventEmitter.begin]
    split
    · rename_i e tasks _ posted
      exact ⟨rfl, .inr ⟨e, by simp [posted], rfl, rfl⟩⟩
    · exact ⟨rfl, .inl ⟨rfl, rfl⟩⟩
  | run =>
    simp only [EventEmitter.step, EventEmitter.run]
    split <;> exact ⟨rfl, .inl ⟨rfl, rfl⟩⟩
  | stopJoin =>
    simp only [EventEmitter.step, EventEmitter.join]
    split <;> exact ⟨rfl, .inl ⟨rfl, rfl⟩⟩
  | startFlag =>
    simp only [EventEmitter.step]
    split <;> exact ⟨rfl, .inl ⟨rfl, rfl⟩⟩
  | register type handler position =>
    simp only [EventEmitter.step, EventEmitter.register]
    split_ifs <;> exact ⟨rfl, .inl ⟨rfl, rfl⟩⟩
  | unRegister type handler =>
    simp only [EventEmitter.step]
    split <;> exact ⟨rfl, .inl ⟨rfl, rfl⟩⟩
  | registerGeneral handler =>
    simp only [EventEmitter.step, EventEmitter.registerGeneral]
    split_ifs <;> exact ⟨rfl, .inl ⟨rfl, rfl⟩⟩
  | startThread | stopFlag | stopSet | finish | unregisterGeneral _ =>
    exact ⟨rfl, .inl ⟨rfl, rfl⟩⟩

/-- The handlers of an event, as far as the engine is concerned. -/
theorem foldl_handle (hs : List EngineHandler) (e : Event OmsEvent) (oms : OmsEngine) :
    (hs.map (·, e)).foldl (handle enum) oms =
      (fun oms => oms.process enum e.data)^[hs.count omsHandler] oms := by
  induction hs generalizing oms with
  | nil => rfl
  | cons h hs ih =>
    rw [List.map_cons, List.foldl_cons, ih, handle]
    split
    · rename_i own
      obtain rfl : h = omsHandler := own
      rw [List.count_cons_self, Function.iterate_succ_apply]
    · rename_i other
      rw [List.count_cons_of_ne other]

theorem Heard.foldl_process (heard : Heard emitter) {e : Event OmsEvent} (put : Put e)
    (oms : OmsEngine) :
    ((emitter.process e).map (·, e)).foldl (handle enum) oms =
      (record? e).toList.foldl (OmsEngine.process enum) oms := by
  rw [foldl_handle, heard e, record?]
  by_cases first : e.type = eventType e.data
  · rw [if_pos (put.type_mem_iff.mpr first), if_pos first]
    rfl
  · rw [if_neg fun mem => first (put.type_mem_iff.mp mem), if_neg first]
    rfl

theorem delivered_concat {events : List (Event OmsEvent)}
    {calls : List (EngineHandler × Event OmsEvent)} (delivered : Delivered events calls)
    (e : Event OmsEvent) (hs : List EngineHandler) :
    Delivered (events ++ [e]) (calls ++ hs.map (·, e)) := by
  obtain ⟨handlers, length, rfl⟩ := delivered
  refine ⟨handlers ++ [hs], by simp [length], ?_⟩
  rw [List.zip_append length, List.flatMap_append]
  simp

/-- The engine has processed the records whose first events have been delivered. -/
structure Follows (enum : Enumeration AString OrderData) (s : EventFeed) : Prop where
  inOrder : s.emitter.InOrder
  heard : Heard s.emitter
  put : ∀ e ∈ s.emitter.accepted, Put e
  pushed : s.emitter.accepted.filterMap record? = s.pushed
  oms : s.oms = OmsEngine.run enum (s.emitter.processed.filterMap record?)
  called : (s.called : Multiset OmsEvent) = (s.pushed : Multiset OmsEvent) +
    (s.threads.map Owed.record).sum
  keyed : (↑(s.called.filterMap keyed) : Multiset (Event OmsEvent)) =
    ↑(seconds s.emitter.accepted) + (s.threads.map Owed.keyed).sum
  delivered : Delivered s.emitter.processed s.emitter.calls
  casts : ∀ call ∈ s.emitter.calls, call.1 = omsHandler → call.2.type = eventType call.2.data

/-- Registering changes the handlers alone. -/
theorem exists_emitter_eq (place : EngineClass → AString → ℕ) :
    ∃ handlers, App.emitter place = { handlers } := by
  have register (handler : EngineHandler) (place : AString → ℕ) (types : List AString)
      (emitter : Emitter) (only : ∃ handlers, emitter = { handlers }) :
      ∃ handlers, types.foldl (fun emitter type => emitter.register type handler (place type))
        emitter = { handlers } := by
    refine foldl_invariant (P := fun emitter : Emitter => ∃ handlers, emitter = { handlers }) _
      (fun emitter type only => ?_) only
    obtain ⟨handlers, rfl⟩ := only
    unfold EventEmitter.register
    split <;> exact ⟨_, rfl⟩
  exact register _ _ _ _ (register _ _ _ _ ⟨_, rfl⟩)

theorem follows_start (place : EngineClass → AString → ℕ) (threads : ℕ) :
    Follows enum (start place threads) := by
  have heard := heard_emitter place
  obtain ⟨handlers, only⟩ := exists_emitter_eq place
  unfold start
  rw [only] at heard ⊢
  refine ⟨?_, heard, by simp, rfl, rfl, by simp [Owed.record], by simp [Owed.keyed, seconds],
    ⟨[], rfl, rfl⟩, by simp⟩
  exact EventEmitter.inOrder_of_conserved rfl (Queues.Mailbox.awake_of_worker (by simp))
    (Queues.Mailbox.stocked_of_worker (by simp))

/-- A thread that is about to put an event, or has put one. -/
theorem sum_record_set {threads : List Owed} {thread : ℕ} {before : Owed}
    (here : threads[thread]? = some before) (after : Owed) :
    ((threads.set thread after).map Owed.record).sum + before.record =
      (threads.map Owed.record).sum + after.record :=
  Transitions.sum_map_set Owed.record here after

theorem sum_keyed_set {threads : List Owed} {thread : ℕ} {before : Owed}
    (here : threads[thread]? = some before) (after : Owed) :
    ((threads.set thread after).map Owed.keyed).sum + before.keyed =
      (threads.map Owed.keyed).sum + after.keyed :=
  Transitions.sum_map_set Owed.keyed here after

@[simp] theorem record_afterFirst (e : OmsEvent) : (Owed.afterFirst e).record = 0 := by
  unfold Owed.afterFirst
  split <;> rfl

@[simp] theorem keyed_afterFirst (e : OmsEvent) :
    (Owed.afterFirst e).keyed = (Owed.both e).keyed := by
  unfold Owed.afterFirst
  split
  · rename_i key own
    simp [Owed.keyed, App.keyed, own]
  · rename_i none
    simp [Owed.keyed, App.keyed, none]

theorem Follows.call (follows : Follows enum s) (thread : ℕ) (e : OmsEvent) :
    Follows enum (s.call thread e) := by
  unfold EventFeed.call
  split
  · rename_i idle
    refine ⟨follows.inOrder, follows.heard, follows.put, follows.pushed, follows.oms, ?_, ?_,
      follows.delivered, follows.casts⟩
    · have sum := sum_record_set idle (.both e)
      simp only [Owed.record, add_zero] at sum
      rw [sum, ← Multiset.coe_add, follows.called, add_assoc]
      rfl
    · have sum := sum_keyed_set idle (.both e)
      simp only [Owed.keyed, add_zero] at sum
      rw [sum, List.filterMap_append, ← Multiset.coe_add, follows.keyed, add_assoc]
      congr 2
  · exact follows

/-- An event that is put reaches the queue behind all others. -/
theorem accepted_put (unlocked : ¬emitter.locked = true) (e : Event OmsEvent) :
    (emitter.put e).accepted = emitter.accepted ++ [e] ∧
      (emitter.put e).processed = emitter.processed ∧
      (emitter.put e).process = emitter.process ∧ (emitter.put e).calls = emitter.calls := by
  simp only [EventEmitter.put, unlocked]
  exact ⟨rfl, rfl, rfl, rfl⟩

theorem Follows.put' (follows : Follows enum s) (thread : ℕ) : Follows enum (s.put thread) := by
  unfold EventFeed.put
  split
  · exact follows
  rename_i unlocked
  split
  · rename_i e owed
    obtain ⟨accepted, processed, process, calls⟩ := accepted_put unlocked ⟨eventType e, e⟩
    refine ⟨follows.inOrder.put _, ?_, ?_, ?_, ?_, ?_, ?_, ?_, calls ▸ follows.casts⟩
    · intro e
      rw [process]
      exact follows.heard e
    · intro e' mem
      rw [accepted, List.mem_append, List.mem_singleton] at mem
      rcases mem with earlier | rfl
      · exact follows.put e' earlier
      · exact .inl rfl
    · rw [accepted, List.filterMap_append, follows.pushed]
      simp [record?]
    · rw [processed]
      exact follows.oms
    · have sum := sum_record_set owed (.afterFirst e)
      rw [record_afterFirst, add_zero] at sum
      rw [follows.called, ← sum, ← Multiset.coe_add, add_assoc]
      congr 1
      exact add_comm _ _
    · have sum := sum_keyed_set owed (.afterFirst e)
      rw [keyed_afterFirst] at sum
      rw [follows.keyed, add_right_cancel sum, accepted]
      simp [seconds, record?]
    · rw [processed, calls]
      exact follows.delivered
  · rename_i e key own owed
    obtain ⟨accepted, processed, process, calls⟩ := accepted_put unlocked ⟨eventType e ++ key, e⟩
    refine ⟨follows.inOrder.put _, ?_, ?_, ?_, ?_, ?_, ?_, ?_, calls ▸ follows.casts⟩
    · intro e
      rw [process]
      exact follows.heard e
    · intro e' mem
      rw [accepted, List.mem_append, List.mem_singleton] at mem
      rcases mem with earlier | rfl
      · exact follows.put e' earlier
      · exact .inr ⟨key, own, rfl⟩
    · rw [accepted, List.filterMap_append, follows.pushed]
      simp [record?_second own]
    · rw [processed]
      exact follows.oms
    · have sum := sum_record_set owed .nothing
      simp only [Owed.record, add_zero] at sum
      rw [follows.called, ← sum]
    · have sum := sum_keyed_set owed .nothing
      simp only [Owed.keyed, add_zero] at sum
      have new : seconds [⟨eventType e ++ key, e⟩] = [⟨eventType e ++ key, e⟩] := by
        simp [seconds, record?_second own]
      rw [follows.keyed, ← sum, accepted, seconds_append, new, ← Multiset.coe_add, add_assoc]
      congr 1
      exact add_comm _ _
    · rw [processed, calls]
      exact follows.delivered
  · exact follows

/-- An event that the engine is called with has a type that it is registered for. -/
theorem Heard.type_mem (heard : Heard emitter) {e : Event OmsEvent}
    (called : omsHandler ∈ emitter.process e) : e.type ∈ omsTypes := by
  by_contra foreign
  have count := heard e
  rw [if_neg foreign, List.count_eq_zero] at count
  exact count called

theorem Follows.emitterStep (follows : Follows enum s) (foreign : Foreign l) :
    Follows enum (s.step enum (.emitter l foreign)) := by
  have start := follows.inOrder.step l
  have heard := follows.heard.step foreign
  obtain ⟨accepted, rest⟩ := @step_foreign s.emitter l foreign
  obtain ⟨processed, calls⟩ | ⟨e, task, processed, calls⟩ := rest
  · refine ⟨start, heard, accepted ▸ follows.put, ?_, ?_, follows.called, accepted ▸ follows.keyed,
      ?_, calls ▸ follows.casts⟩
    · exact (congrArg _ accepted).trans follows.pushed
    · simp only [EventFeed.step, processed, calls, List.drop_length, List.foldl_nil]
      exact follows.oms
    · simp only [EventFeed.step, processed, calls]
      exact follows.delivered
  · have put : Put e := by
      refine follows.put e ?_
      rw [follows.inOrder.conserved]
      simp [task]
    refine ⟨start, heard, accepted ▸ follows.put, ?_, ?_, follows.called, accepted ▸ follows.keyed,
      ?_, ?_⟩
    · exact (congrArg _ accepted).trans follows.pushed
    · simp only [EventFeed.step, processed, calls, List.drop_left]
      rw [follows.heard.foldl_process put, follows.oms, OmsEngine.run, OmsEngine.run,
        List.filterMap_append, List.foldl_append]
      congr 1
    · simp only [EventFeed.step, processed, calls]
      exact delivered_concat follows.delivered e _
    · intro call mem own
      simp only [EventFeed.step, calls, List.mem_append, List.mem_map] at mem
      rcases mem with earlier | ⟨h, handler, rfl⟩
      · exact follows.casts call earlier own
      · obtain rfl : h = omsHandler := own
        exact put.type_mem_iff.mp (follows.heard.type_mem handler)

theorem Follows.step (follows : Follows enum s) (l : Step) : Follows enum (s.step enum l) := by
  cases l with
  | call thread e => exact follows.call thread e
  | put thread => exact follows.put' thread
  | emitter l foreign => exact follows.emitterStep foreign

/-- The records whose first event has been put and not been delivered. -/
def waiting (s : EventFeed) : List OmsEvent :=
  (s.emitter.tasks ++ s.emitter.mailbox.worker.held ++ s.emitter.mailbox.queue).filterMap record?

/-- Every call of an exchange passes on one record. Its thread puts the first event once, and so the
second one if there is one. Events are delivered one after the other in the order in which they were
put. The engine is in the state that the records of the first events lead to in this order, up to
those that wait to be delivered, and it is only called with events whose data have the type that it
casts them to. -/
structure UpToDate (enum : Enumeration AString OrderData) (s : EventFeed) : Prop where
  called : (s.called : Multiset OmsEvent) = (s.pushed : Multiset OmsEvent) +
    (s.threads.map Owed.record).sum
  pushed : s.emitter.accepted.filterMap record? = s.pushed
  keyed : (↑(s.called.filterMap keyed) : Multiset (Event OmsEvent)) =
    ↑(seconds s.emitter.accepted) + (s.threads.map Owed.keyed).sum
  inOrder : s.emitter.accepted =
    s.emitter.processed ++ s.emitter.tasks ++ s.emitter.mailbox.worker.held ++
      s.emitter.mailbox.queue
  delivered : Delivered s.emitter.processed s.emitter.calls
  oms : ∃ delivered, s.pushed = delivered ++ s.waiting ∧ s.oms = OmsEngine.run enum delivered
  casts : ∀ call ∈ s.emitter.calls, call.1 = omsHandler → call.2.type = eventType call.2.data

theorem Follows.upToDate (follows : Follows enum s) : UpToDate enum s where
  called := follows.called
  pushed := follows.pushed
  keyed := follows.keyed
  inOrder := follows.inOrder.conserved
  delivered := follows.delivered
  oms := by
    refine ⟨s.emitter.processed.filterMap record?, ?_, follows.oms⟩
    rw [← follows.pushed, follows.inOrder.conserved, waiting]
    simp
  casts := follows.casts

/-- However the threads of the exchanges, the worker and the main loop interleave, and whatever
other handlers come and go, the engine follows what the exchanges pass on. -/
theorem upToDate_run (enum : Enumeration AString OrderData) (place : EngineClass → AString → ℕ)
    (threads : ℕ) (steps : List Step) : UpToDate enum (run enum place threads steps) := by
  have follows : Follows enum (run enum place threads steps) :=
    foldl_invariant _ (fun _ l follows => follows.step l) (follows_start place threads)
  exact follows.upToDate

end EventFeed

end KeenTrader.App
