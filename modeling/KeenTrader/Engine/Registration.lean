import KeenTrader.Engine.EventEmitter

/-!
# Registered handlers

Handlers are told apart by the C++ types of their callables alone. A handler is therefore taken
for registered when another object of its class is, and taken away in another's place. `Book`
keeps beside the emitter what the calls ask for.
-/

namespace KeenTrader.Engine

open Queues Runs

namespace EventEmitter

/-- The calls that change the handlers of a type. The container puts a new handler at any
position among those of its type. -/
inductive Call (Callable Obj : Type*) where
  | register (type : AString) (handler : HandlerType Callable Obj) (position : ℕ)
  | unRegister (type : AString) (handler : HandlerType Callable Obj)

/-- `live` holds the handlers that have been registered and not unregistered since. -/
structure Book (Data Callable Obj : Type*) where
  emitter : EventEmitter Data Callable Obj := {}
  live : AString → Set (HandlerType Callable Obj) := fun _ => ∅

namespace Book

variable {Data Callable Obj : Type*}

/-- Every event is passed to the live handlers of its type, once to each, and to no other. -/
def Served (b : Book Data Callable Obj) : Prop :=
  ∀ e : Event Data, (b.emitter.process e).Nodup ∧ ∀ h, h ∈ b.emitter.process e ↔ h ∈ b.live e.type

/-- The live handlers of the type whose callable is of the handler's type are bound to the
handler's object. -/
def Alike (b : Book Data Callable Obj) (type : AString)
    (handler : HandlerType Callable Obj) : Prop :=
  ∀ h ∈ b.live type, h.callable = handler.callable → h.object = handler.object

/-- A call is not mistaken for one about the handler of another object. -/
def Unmistaken (b : Book Data Callable Obj) : Call Callable Obj → Prop
  | .register type handler _ => b.Alike type handler
  | .unRegister type handler => b.Alike type handler

/-- No two handlers of one event type have callables of one type. -/
structure Single (b : Book Data Callable Obj) : Prop where
  callables : ∀ type, ((b.emitter.handlers type).map HandlerType.callable).Nodup
  general : b.emitter.generalHandlers = []

variable {b : Book Data Callable Obj} {type other : AString}
  {handler g h : HandlerType Callable Obj}
  {position : ℕ}

theorem Single.eq_of_callable (single : b.Single) (first : g ∈ b.emitter.handlers type)
    (second : h ∈ b.emitter.handlers type) (same : g.callable = h.callable) : g = h :=
  List.inj_on_of_nodup_map (single.callables type) first second same

/-- Where no two callables agree, events are served exactly if the table holds what is live. -/
theorem Single.served_iff [Inhabited Data] (single : b.Single) :
    b.Served ↔ ∀ type h, h ∈ b.emitter.handlers type ↔ h ∈ b.live type := by
  unfold Served process
  simp only [single.general, List.append_nil]
  constructor
  · intro served type h
    exact (served ⟨type, default⟩).2 h
  · intro same e
    exact ⟨(single.callables e.type).of_map _, same e.type⟩

section Calls
variable [DecidableEq Callable]

def call (b : Book Data Callable Obj) : Call Callable Obj → Book Data Callable Obj
  | .register type handler position =>
    { emitter := b.emitter.register type handler position
      live := Function.update b.live type (insert handler (b.live type)) }
  | .unRegister type handler =>
    { emitter := b.emitter.unRegister type handler
      live := Function.update b.live type (b.live type \ {handler}) }

/-! ## What the table holds after a call -/

theorem mem_register : h ∈ (b.emitter.register type handler position).handlers other ↔
    h ∈ b.emitter.handlers other ∨ (other = type ∧ h = handler ∧
      ∀ g ∈ b.emitter.handlers type, g.callable ≠ handler.callable) := by
  unfold EventEmitter.register
  split
  · rename_i taken
    obtain ⟨g, mem, same⟩ := List.any_eq_true.mp taken
    constructor
    · exact Or.inl
    · rintro (mem | ⟨-, -, none⟩)
      · exact mem
      · exact absurd (by simpa using same) (none g mem)
  · rename_i free
    have none : ∀ g ∈ b.emitter.handlers type, g.callable ≠ handler.callable := by
      simpa using free
    by_cases here : other = type
    · subst here
      simp only [Function.update_self, List.mem_insertIdx (min_le_right _ _)]
      rw [or_comm]
      refine or_congr_right ?_
      constructor
      · exact fun eq => ⟨trivial, eq, none⟩
      · exact fun fresh => fresh.2.1
    · simp [here]

/-- Erasing the first handler of a callable type erases them all. -/
theorem eraseP_eq_filter {hs : List (HandlerType Callable Obj)}
    (nodup : (hs.map HandlerType.callable).Nodup) (c : Callable) :
    hs.eraseP (·.callable = c) = hs.filter (·.callable ≠ c) := by
  induction hs with
  | nil => rfl
  | cons g hs ih =>
    rw [List.map_cons, List.nodup_cons] at nodup
    by_cases first : g.callable = c
    · have others : ∀ h ∈ hs, h.callable ≠ c := fun h mem same =>
        nodup.1 (List.mem_map.mpr ⟨h, mem, same.trans first.symm⟩)
      have kept : hs.filter (·.callable ≠ c) = hs :=
        List.filter_eq_self.mpr fun h mem => by simpa using others h mem
      rw [List.eraseP_cons_of_pos (by simpa using first),
        List.filter_cons_of_neg (by simpa using first), kept]
    · simp [first, ih nodup.2]

theorem Single.mem_unRegister (single : b.Single) :
    h ∈ (b.emitter.unRegister type handler).handlers other ↔
      h ∈ b.emitter.handlers other ∧ ¬(other = type ∧ h.callable = handler.callable) := by
  unfold EventEmitter.unRegister
  by_cases here : other = type
  · subst here
    simp [eraseP_eq_filter (single.callables other)]
  · simp [here]

theorem mem_live_register : h ∈ (b.call (.register type handler position)).live other ↔
    h ∈ b.live other ∨ (other = type ∧ h = handler) := by
  by_cases here : other = type
  · subst here
    simp [call, or_comm]
  · simp [call, here]

theorem mem_live_unRegister : h ∈ (b.call (.unRegister type handler)).live other ↔
    h ∈ b.live other ∧ ¬(other = type ∧ h = handler) := by
  by_cases here : other = type
  · subst here
    simp [call]
  · simp [call, here]

theorem Single.register (single : b.Single) :
    (b.call (.register type handler position)).Single := by
  simp only [call, EventEmitter.register]
  split
  · exact ⟨single.callables, single.general⟩
  · rename_i free
    refine ⟨fun other => ?_, single.general⟩
    by_cases here : other = type
    · subst here
      have perm := (List.perm_insertIdx handler (b.emitter.handlers other)
        (min_le_right position _)).map HandlerType.callable
      simp only [Function.update_self]
      refine perm.nodup_iff.mpr (List.nodup_cons.mpr ⟨?_, single.callables other⟩)
      simpa using free
    · simpa [here] using single.callables other

theorem Single.unRegister (single : b.Single) :
    (b.call (.unRegister type handler)).Single := by
  refine ⟨fun other => ?_, single.general⟩
  simp only [call, EventEmitter.unRegister]
  by_cases here : other = type
  · subst here
    simp only [Function.update_self]
    exact (single.callables other).sublist (List.eraseP_sublist.map _)
  · simpa [here] using single.callables other

theorem Single.call (single : b.Single) (c : Call Callable Obj) : (b.call c).Single := by
  cases c with
  | register type handler position => exact single.register
  | unRegister type handler => exact single.unRegister

/-! ## When a call is served -/

/-- A registration is served exactly if no other object of the class is registered. -/
theorem Single.register_iff (single : b.Single)
    (same : ∀ type h, h ∈ b.emitter.handlers type ↔ h ∈ b.live type) :
    (∀ other h, h ∈ (b.emitter.register type handler position).handlers other ↔
      h ∈ (b.call (.register type handler position)).live other) ↔ b.Alike type handler := by
  simp only [mem_register, mem_live_register, ← same]
  constructor
  · intro served h live callable
    rcases (served type handler).mpr (.inr ⟨rfl, rfl⟩) with here | ⟨-, -, free⟩
    · exact congrArg HandlerType.object (single.eq_of_callable ((same _ _).mpr live) here callable)
    · exact absurd callable (free h ((same _ _).mpr live))
  · intro alike other h
    constructor
    · exact Or.imp_right fun fresh => ⟨fresh.1, fresh.2.1⟩
    · rintro (mem | ⟨rfl, rfl⟩)
      · exact .inl mem
      by_cases taken : ∃ g ∈ b.emitter.handlers other, g.callable = h.callable
      · obtain ⟨g, mem, callable⟩ := taken
        have object := alike g ((same _ _).mp mem) callable
        obtain rfl : g = h := by
          cases g
          cases h
          simp_all
        exact .inl mem
      · exact .inr ⟨rfl, rfl, fun g mem callable => taken ⟨g, mem, callable⟩⟩

/-- Taking a handler away is served exactly if no other object of the class is registered. -/
theorem Single.unRegister_iff (single : b.Single)
    (same : ∀ type h, h ∈ b.emitter.handlers type ↔ h ∈ b.live type) :
    (∀ other h, h ∈ (b.emitter.unRegister type handler).handlers other ↔
      h ∈ (b.call (.unRegister type handler)).live other) ↔ b.Alike type handler := by
  simp only [single.mem_unRegister, mem_live_unRegister, ← same]
  constructor
  · intro served h live callable
    by_contra object
    have kept : h ∈ b.emitter.handlers type ∧ ¬(type = type ∧ h = handler) :=
      ⟨(same _ _).mpr live, fun ⟨_, eq⟩ => object (by rw [eq])⟩
    exact ((served type h).mpr kept).2 ⟨rfl, callable⟩
  · intro alike other h
    refine and_congr_right fun mem => not_congr (and_congr_right ?_)
    rintro rfl
    constructor
    · intro callable
      have object := alike h ((same _ _).mp mem) callable
      cases h
      cases handler
      simp_all
    · exact fun eq => by rw [eq]

theorem Single.call_served_iff [Inhabited Data] (single : b.Single) (served : b.Served)
    (c : Call Callable Obj) : (b.call c).Served ↔ b.Unmistaken c := by
  rw [(single.call c).served_iff]
  have same := single.served_iff.mp served
  cases c with
  | register type handler position => exact single.register_iff same
  | unRegister type handler => exact single.unRegister_iff same

/-- Every event reaches exactly the live handlers of its type throughout those histories in which
no call names a handler while a handler of another object with the same callable type is live. -/
theorem served_iff_unmistaken [Inhabited Data] (calls : List (Call Callable Obj)) :
    Always call Served ({} : Book Data Callable Obj) calls ↔
      Meets call Unmistaken ({} : Book Data Callable Obj) calls := by
  have start : Single ({} : Book Data Callable Obj) := ⟨by simp, rfl⟩
  refine always_iff_meets_of_invariant (fun b c single => Single.call single c)
    (fun b c single served => single.call_served_iff served c) start ?_
  exact start.served_iff.mpr (by simp)

end Calls

/-- The second of two objects of one class is never called. -/
theorem second_not_called :
    ¬ ∀ calls : List (Call ℕ ℕ), Always call Served ({} : Book Unit ℕ ℕ) calls := by
  intro all
  have served := (all [.register "eTick." ⟨0, 1⟩ 0, .register "eTick." ⟨0, 2⟩ 0]).last
  have called := ((served ⟨"eTick.", ()⟩).2 ⟨0, 2⟩).mpr (by simp [call])
  exact absurd called (by decide)

end Book

end EventEmitter

end KeenTrader.Engine
