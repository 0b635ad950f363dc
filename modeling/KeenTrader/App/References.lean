import KeenTrader.App.Stopping

/-!
# References into the book of stop orders

`check_stop_order` and `cancel_local_stop_order` hold references into `stop_orders`. Here a
reference is the key of its entry, and using it fails once the entry has been erased. Both
functions go on using a reference to the entry that they erase, so they fail whenever they get
that far, before any strategy is told.
-/

namespace KeenTrader.App

open Std (ExtTreeMap ExtTreeSet)
open Containers Handlers KeenTrader.Engine

/-- What ends one of the two functions early: the use of an entry that has been erased, or
`contract.value()` without a contract. -/
inductive BookFault where
  | erased
  | noContract
  deriving DecidableEq, Repr

abbrev BookHandler (α : Type) := Handler BookFault CtaEngine α

namespace CtaEngine

/-- Reading an entry through a reference. -/
def deref (key : AString) : BookHandler StopOrder := do
  match (← get).stopOrders[key]? with
  | some so => pure so
  | none => throw .erased

/-- Writing an entry through a reference. -/
def assign (key : AString) (f : StopOrder → StopOrder) : BookHandler Unit := do
  let so ← deref key
  modify fun s => { s with stopOrders := s.stopOrders.insert key (f so) }

/-- Taking an id out of the ids of a strategy. -/
def eraseOrderid (s : CtaEngine) (p : Ptr) (stopOrderid : AString) : CtaEngine :=
  let name := (s.objects p).strategyName
  s.setOrderids name ((s.orderids name).erase stopOrderid)

section References
variable (env : Environment) (call : Ptr → Callback → BookHandler Unit)

/-- The end of both functions: the strategy and the event queue get the entry itself. -/
def tellThrough (p : Ptr) (key : AString) : BookHandler Unit := do
  let so ← deref key
  call p (.onStopOrder so)
  let so ← deref key
  modify (·.putStopOrderEvent so)

def cancelThrough (stopOrderid : AString) : BookHandler Unit := do
  let s ← get
  if s.stopOrders.contains stopOrderid then
    let so ← deref stopOrderid
    match s.strategies[so.strategyName]? with
    | none => pure ()
    | some p =>
      modify fun s => { s with stopOrders := s.stopOrders.erase stopOrderid }
      modify (·.eraseOrderid p stopOrderid)
      assign stopOrderid ({ · with status := .cancelled })
      tellThrough call p stopOrderid
  else pure ()

/-- The body of the loop of `check_stop_order`. -/
def visitThrough (tick : TickData) (key : AString) : BookHandler Unit := do
  let so ← deref key
  if Triggers tick so then
    let s ← get
    match s.strategies[so.strategyName]?, s.oms.getContract so.ktSymbol with
    | some p, some contract =>
      let (ktOrderids, s) := sendTriggered env s tick p contract so
      set s
      if ktOrderids = [] then pure ()
      else
        modify fun s => { s with stopOrders := s.stopOrders.erase so.stopOrderid }
        let so ← deref key
        modify (·.eraseOrderid p so.stopOrderid)
        assign key ({ · with status := .triggered, ktOrderids })
        tellThrough call p key
    | _, _ => throw .noContract
  else pure ()

/-- The loop of `check_stop_order`, cut off when it has visited that many entries. It steps from
the entry that it has visited last. -/
def passThrough (tick : TickData) : ℕ → Option AString → BookHandler Unit
  | 0, _ => pure ()
  | n + 1, after => do
    if let some key := after then discard (deref key)
    match (← get).nextStopOrder after with
    | none => pure ()
    | some (key, _) =>
      visitThrough env call tick key
      passThrough tick n (some key)

end References

/-- The handler uses an entry that has been erased. -/
def Dangles (h : BookHandler Unit) (s : CtaEngine) : Prop := (h.exec s).1 = .error .erased

/-- The exchange takes no order of the stop orders, visited one after the other until one of them
has no contract. -/
def Refused (env : Environment) (tick : TickData) : List StopOrder → CtaEngine → Prop
  | [], _ => True
  | so :: rest, s =>
    if Triggers tick so then
      match s.strategies[so.strategyName]?, s.oms.getContract so.ktSymbol with
      | some p, some contract =>
        (sendTriggered env s tick p contract so).1 = [] ∧
          Refused env tick rest (sendTriggered env s tick p contract so).2
      | _, _ => True
    else Refused env tick rest s

variable {env : Environment} {call : Ptr → Callback → BookHandler Unit} {s t : CtaEngine}

theorem refused_cons {tick : TickData} {so : StopOrder} {rest : List StopOrder} {p : Ptr}
    {contract : ContractData} (triggers : Triggers tick so)
    (owner : s.strategies[so.strategyName]? = some p)
    (found : s.oms.getContract so.ktSymbol = some contract) :
    Refused env tick (so :: rest) s ↔ (sendTriggered env s tick p contract so).1 = [] ∧
      Refused env tick rest (sendTriggered env s tick p contract so).2 := by
  rw [Refused, if_pos triggers, owner, found]

@[simp] theorem exec_deref_bind {α : Type} {f : StopOrder → BookHandler α} {key : AString} :
    (deref key >>= f).exec s =
      match s.stopOrders[key]? with
      | some so => (f so).exec s
      | none => (.error .erased, s) := by
  cases stored : s.stopOrders[key]? with
  | none =>
    refine exec_bind_error ?_
    simp [deref, stored]
    rfl
  | some so =>
    refine exec_bind_ok ?_
    simp [deref, stored]

@[simp] theorem exec_assign_bind {α : Type} {k : Unit → BookHandler α} {key : AString}
    {f : StopOrder → StopOrder} (gone : s.stopOrders[key]? = none) :
    (assign key f >>= k).exec s = (.error .erased, s) := by
  refine exec_bind_error ?_
  rw [assign, exec_deref_bind, gone]

/-- Cancelling fails exactly for the stop orders that are there to be cancelled. -/
theorem dangles_cancel_iff (stopOrderid : AString) (owned : ∀ (id : AString) so,
      s.stopOrders[id]? = some so → ∃ p, s.strategies[so.strategyName]? = some p) :
    Dangles (cancelThrough call stopOrderid) s ↔ stopOrderid ∈ s.stopOrders := by
  unfold Dangles cancelThrough
  rw [exec_get_bind]
  split
  · rename_i mem
    have mem : stopOrderid ∈ s.stopOrders := mem
    obtain ⟨so, stored⟩ := Option.isSome_iff_exists.mp
      (ExtTreeMap.isSome_getElem?_iff_mem.mpr mem)
    obtain ⟨p, registered⟩ := owned stopOrderid so stored
    simp only [exec_deref_bind, stored, registered, exec_modify_bind]
    rw [exec_assign_bind (by simp [eraseOrderid])]
    exact iff_of_true rfl mem
  · rename_i absent
    exact iff_of_false (by simp) absent

/-! ## The pass -/

theorem checkOne_idle {tick : TickData} {so : StopOrder} (idle : ¬Triggers tick so) :
    checkOne env s tick so = some s := by
  rcases checkOne_cases env s tick so with ⟨-, same⟩ | ⟨triggers, -⟩ |
    ⟨-, -, triggers, -⟩
  · exact same
  · exact absurd triggers idle
  · exact absurd triggers idle

theorem checkOne_missing {tick : TickData} {so : StopOrder} (triggers : Triggers tick so)
    (missing : s.oms.getContract so.ktSymbol = none) : checkOne env s tick so = none := by
  rcases checkOne_cases env s tick so with ⟨idle, -⟩ | ⟨-, -, threw⟩ |
    ⟨_, _, -, -, found, -⟩
  · exact absurd triggers idle
  · exact threw
  · simp [missing] at found

theorem checkOne_refused {tick : TickData} {so : StopOrder} {p : Ptr} {contract : ContractData}
    (triggers : Triggers tick so) (owner : s.strategies[so.strategyName]? = some p)
    (found : s.oms.getContract so.ktSymbol = some contract)
    (refused : (sendTriggered env s tick p contract so).1 = []) :
    checkOne env s tick so = some (sendTriggered env s tick p contract so).2 := by
  rcases checkOne_cases env s tick so with ⟨idle, -⟩ | ⟨-, missing, -⟩ |
    ⟨q, other, -, owner', found', sent⟩
  · exact absurd triggers idle
  · simp [owner, found] at missing
  · obtain rfl := Option.some.inj (owner.symm.trans owner')
    obtain rfl := Option.some.inj (found.symm.trans found')
    rcases sent with ⟨t, eq, visited⟩ | ⟨id, ids, t, told, eq, -⟩
    · rw [visited, eq]
    · simp [eq] at refused

/-- Behind a visited entry the iteration reaches the next one. -/
theorem nextStopOrder_append {before after : List (AString × StopOrder)}
    (entries : s.stopOrders.toList = before ++ after) :
    s.nextStopOrder (before.getLast?.map Prod.fst) = after.head? := by
  have ordered := s.stopOrders.ordered_keys_toList
  rw [entries, List.pairwise_append] at ordered
  obtain ⟨ordered_before, -, across⟩ := ordered
  unfold nextStopOrder
  rw [entries, List.find?_append]
  rcases List.eq_nil_or_concat' before with rfl | ⟨init, last, rfl⟩
  · cases after <;> simp
  · rw [List.getLast?_append_cons, List.getLast?_singleton]
    have passed : (init ++ [last]).find? (fun x => decide (last.1 < x.1)) = none := by
      refine List.find?_eq_none.mpr fun x mem => ?_
      rw [decide_eq_true_eq, not_lt]
      rcases List.mem_append.mp mem with early | same
      · have before := (List.pairwise_append.mp ordered_before).2.2 x early last (by simp)
        exact (compare_lt_iff_lt.mp before).le
      · rw [List.mem_singleton.mp same]
    have reached : after.find? (fun x => decide (last.1 < x.1)) = after.head? := by
      cases after with
      | nil => rfl
      | cons x after =>
        have later := compare_lt_iff_lt.mp (across last (by simp) x (by simp))
        exact List.find?_cons_of_pos (decide_eq_true later)
    change ((init ++ [last]).find? fun x => decide (last.1 < x.1)).or
      (after.find? fun x => decide (last.1 < x.1)) = _
    rw [passed, reached, Option.none_or]

variable (call) in
/-- A visit of a stop order changes nothing, throws, sends in vain, or fails. -/
theorem exec_visitThrough_cases (tick : TickData) {key : AString} {so : StopOrder}
    (stored : s.stopOrders[key]? = some so) (keyed : so.stopOrderid = key)
    (owned : ∃ p, s.strategies[so.strategyName]? = some p) :
    (¬Triggers tick so ∧ (visitThrough env call tick key).exec s = (.ok (), s)) ∨
    (Triggers tick so ∧ s.oms.getContract so.ktSymbol = none ∧
      (visitThrough env call tick key).exec s = (.error .noContract, s)) ∨
    ∃ p contract, Triggers tick so ∧ s.strategies[so.strategyName]? = some p ∧
      s.oms.getContract so.ktSymbol = some contract ∧
      (((sendTriggered env s tick p contract so).1 = [] ∧
          (visitThrough env call tick key).exec s =
            (.ok (), (sendTriggered env s tick p contract so).2)) ∨
        ((sendTriggered env s tick p contract so).1 ≠ [] ∧
          Dangles (visitThrough env call tick key) s)) := by
  obtain ⟨p, registered⟩ := owned
  unfold Dangles visitThrough
  simp only [exec_deref_bind, stored]
  by_cases triggers : Triggers tick so
  · refine .inr ?_
    simp only [triggers, if_true, exec_get_bind, registered]
    cases found : s.oms.getContract so.ktSymbol with
    | none => exact .inl ⟨trivial, rfl, rfl⟩
    | some contract =>
      refine .inr ⟨p, contract, trivial, rfl, rfl, ?_⟩
      by_cases taken : (sendTriggered env s tick p contract so).1 = []
      · exact .inl ⟨taken, by simp [taken]⟩
      · refine .inr ⟨taken, ?_⟩
        subst keyed
        simp [taken]
  · exact .inl ⟨triggers, by simp [triggers]⟩

variable (env call) in
/-- A round of the loop steps from the entry that it has visited last, which is still there. -/
theorem exec_passThrough_succ (tick : TickData) (n : ℕ) {before after : List (AString × StopOrder)}
    (entries : s.stopOrders.toList = before ++ after) :
    (passThrough env call tick (n + 1) (before.getLast?.map Prod.fst)).exec s =
      match after.head? with
      | none => (.ok (), s)
      | some (key, _) => Handler.exec (do
          visitThrough env call tick key
          passThrough env call tick n (some key)) s := by
  have rounds : ∀ h : BookHandler Unit, h.exec s = (.ok (), s) →
      (h >>= fun _ => get >>= fun s =>
        match s.nextStopOrder (before.getLast?.map Prod.fst) with
        | none => pure ()
        | some (key, _) => do
          visitThrough env call tick key
          passThrough env call tick n (some key) : BookHandler Unit).exec s =
        match after.head? with
        | none => (.ok (), s)
        | some (key, _) => Handler.exec (do
            visitThrough env call tick key
            passThrough env call tick n (some key)) s := by
    intro h here
    rw [exec_bind_ok here, exec_get_bind, nextStopOrder_append entries]
    cases after.head? <;> rfl
  cases last : before.getLast? with
  | none =>
    rw [last] at rounds
    exact rounds (pure ()) rfl
  | some x =>
    rw [last] at rounds
    have mem : x ∈ s.stopOrders.toList := by
      rw [entries]
      exact List.mem_append_left _ (List.mem_of_getLast? last)
    have stored : s.stopOrders[x.1]? = some x.2 :=
      ExtTreeMap.mem_toList_iff_getElem?_eq_some.mp mem
    refine rounds (discard (deref x.1)) ?_
    change Handler.exec (deref x.1 >>= fun _ => pure ()) s = _
    rw [exec_deref_bind, stored, exec_pure]

/-- The pass through references from an entry on: while the exchange refuses it is the pass over
values, and it fails as soon as an order is taken. -/
def Follows (env : Environment) (call : Ptr → Callback → BookHandler Unit) (tick : TickData)
    (n : ℕ) (after : Option AString) (rest : List StopOrder) (s : CtaEngine) : Prop :=
  (Refused env tick rest s ∧ ¬Dangles (passThrough env call tick n after) s ∧
    (passThrough env call tick n after).state s = (checkStopOrders env tick n after s).1) ∨
  (¬Refused env tick rest s ∧ Dangles (passThrough env call tick n after) s)

section Round
variable {tick : TickData} {n : ℕ} {key : AString} {so : StopOrder}
  {before rest : List (AString × StopOrder)}
  (entries : s.stopOrders.toList = before ++ (key, so) :: rest)
include entries

/-- A visit that leaves the book as it is. -/
theorem Follows.visit (later : Follows env call tick n (some key) (rest.map Prod.snd) t)
    (visited : (visitThrough env call tick key).exec s = (.ok (), t))
    (checked : checkOne env s tick so = some t)
    (same : Refused env tick (so :: rest.map Prod.snd) s ↔
      Refused env tick (rest.map Prod.snd) t) :
    Follows env call tick (n + 1) (before.getLast?.map Prod.fst) (so :: rest.map Prod.snd) s := by
  have round := exec_passThrough_succ env call tick n entries
  have values : checkStopOrders env tick (n + 1) (before.getLast?.map Prod.fst) s =
      checkStopOrders env tick n (some key) t := by
    rw [checkStopOrders, nextStopOrder_append entries]
    simp only [List.head?_cons, checked]
  simp only [List.head?_cons] at round
  unfold Follows Dangles Handler.state at later ⊢
  rw [round, exec_bind_ok visited, values, same]
  exact later

/-- A visit that throws. -/
theorem Follows.threw (visited : (visitThrough env call tick key).exec s = (.error .noContract, s))
    (checked : checkOne env s tick so = none)
    (refused : Refused env tick (so :: rest.map Prod.snd) s) :
    Follows env call tick (n + 1) (before.getLast?.map Prod.fst) (so :: rest.map Prod.snd) s := by
  have round := exec_passThrough_succ env call tick n entries
  have values : (checkStopOrders env tick (n + 1) (before.getLast?.map Prod.fst) s).1 = s := by
    rw [checkStopOrders, nextStopOrder_append entries]
    simp only [List.head?_cons, checked]
  simp only [List.head?_cons] at round
  rw [exec_bind_error visited] at round
  refine .inl ⟨refused, ?_, ?_⟩
  · rw [Dangles, round]
    simp
  · rw [Handler.state, round, values]

/-- A visit that fails. -/
theorem Follows.failed (visited : Dangles (visitThrough env call tick key) s)
    (taken : ¬Refused env tick (so :: rest.map Prod.snd) s) :
    Follows env call tick (n + 1) (before.getLast?.map Prod.fst) (so :: rest.map Prod.snd) s := by
  have round := exec_passThrough_succ env call tick n entries
  have failed : (visitThrough env call tick key).exec s =
      (.error .erased, ((visitThrough env call tick key).exec s).2) := Prod.ext visited rfl
  simp only [List.head?_cons] at round
  refine .inr ⟨taken, ?_⟩
  rw [Dangles, round, exec_bind_error failed]

end Round

variable (env call) in
theorem follows_pass (tick : TickData) (n : ℕ) {before after : List (AString × StopOrder)}
    (room : after.length < n) (safe : s.Safe) (entries : s.stopOrders.toList = before ++ after) :
    Follows env call tick n (before.getLast?.map Prod.fst) (after.map Prod.snd) s := by
  induction n generalizing before after s with
  | zero => exact absurd room (by simp)
  | succ n ih =>
    cases after with
    | nil =>
      have round := exec_passThrough_succ env call tick n entries
      unfold Follows Dangles Handler.state checkStopOrders
      rw [round, nextStopOrder_append entries]
      exact .inl ⟨trivial, by simp, rfl⟩
    | cons x rest =>
      obtain ⟨key, so⟩ := x
      have stored : s.stopOrders[key]? = some so :=
        ExtTreeMap.mem_toList_iff_getElem?_eq_some.mp (by rw [entries]; simp)
      obtain ⟨-, keyed, -, p, registered, trading⟩ := safe.stops key so stored
      have later : ∀ t : CtaEngine, t.Safe → t.stopOrders = s.stopOrders →
          Follows env call tick n (some key) (rest.map Prod.snd) t := by
        intro t safe book
        have entries_t : t.stopOrders.toList = (before ++ [(key, so)]) ++ rest := by
          rw [book, entries, List.append_assoc, List.singleton_append]
        simpa using ih (by simpa using room) safe entries_t
      rw [List.map_cons]
      rcases exec_visitThrough_cases call tick stored keyed ⟨p, registered⟩ with
        ⟨idle, visited⟩ | ⟨triggers, missing, visited⟩ |
          ⟨q, contract, triggers, owner, found, ⟨refused, visited⟩ | ⟨taken, visited⟩⟩
      · exact (later s safe rfl).visit entries visited (checkOne_idle idle)
          (by rw [Refused, if_neg idle])
      · refine .threw entries visited (checkOne_missing triggers missing) ?_
        rw [Refused, if_pos triggers, missing, registered]
        trivial
      · obtain rfl := Option.some.inj (registered.symm.trans owner)
        have moves := moves_sendTriggered env tick contract so (trading.resolve_right id)
        refine (later _ (moves.acts.guarded safe)
          (stopOrders_sendTriggered env s tick p contract so)).visit entries visited
            (checkOne_refused triggers owner found refused) ?_
        rw [refused_cons triggers owner found, and_iff_right refused]
      · refine .failed entries visited ?_
        rw [refused_cons triggers owner found]
        exact fun refused => taken refused.1

/-- In every state of a run, whatever strategies do when they are told: cancelling uses no entry
that has been erased exactly if there is none to be cancelled, and a pass over the book exactly if
the exchange takes no order of the stop orders that the tick triggers. -/
theorem references_hold_iff (env : Environment) (call : Ptr → Callback → BookHandler Unit)
    (classes : ExtTreeSet AString) (ops : List Op) (stopOrderid : AString) (tick : TickData)
    {n : ℕ} (room : (run env classes ops).stopOrders.size < n) :
    (¬Dangles (cancelThrough call stopOrderid) (run env classes ops) ↔
      stopOrderid ∉ (run env classes ops).stopOrders) ∧
    (¬Dangles (passThrough env call tick n none)
        ((run env classes ops).processOms env (.tick tick)) ↔
      Refused env tick ((run env classes ops).stopOrders.toList.map Prod.snd)
        ((run env classes ops).processOms env (.tick tick))) := by
  have safe := safe_run env classes ops
  generalize run env classes ops = s at *
  constructor
  · refine not_congr (dangles_cancel_iff stopOrderid fun id so stored => ?_)
    obtain ⟨-, -, -, p, registered, -⟩ := safe.stops id so stored
    exact ⟨p, registered⟩
  · have entries : (s.processOms env (.tick tick)).stopOrders.toList = [] ++ s.stopOrders.toList :=
      rfl
    have pass := follows_pass env call tick n
      (by rw [ExtTreeMap.length_toList]; exact room) (safe.processOms _) entries
    rcases pass with ⟨refused, holds, -⟩ | ⟨taken, fails⟩
    · exact iff_of_true holds refused
    · exact iff_of_false (not_not.mpr fails) taken

section Triggered

/-- A strategy that places a stop order on a tick, and an exchange that takes every order. -/
def stopOnTick : Environment :=
  { buyOnTick with
    react _ _
      | .onTick _ => [.buy 3500 1 true false false]
      | _ => [] }

/-- One stop order is in the book. -/
def placedOnTick : List Op :=
  [.contract { symbol := "rb2410", exchange := .shfe, product := .futures, pricetick := 1
               exchangeName := "CTP" },
    .addStrategy "Dual" "alpha" "rb2410.SHFE" .null, .initStrategy "alpha",
    .startStrategy "alpha", .tick { symbol := "rb2410", exchange := .shfe }]

def silent : Ptr → Callback → BookHandler Unit := fun _ _ => pure ()

/-- An id that has not been given out can be cancelled, and a tick below the price does nothing. -/
theorem references_hold_below :
    ¬Dangles (cancelThrough silent "STOP.2") (run stopOnTick {"Dual"} placedOnTick) ∧
    ¬Dangles (passThrough stopOnTick silent
        { symbol := "rb2410", exchange := .shfe, lastPrice := 3400 } 2 none)
      ((run stopOnTick {"Dual"} placedOnTick).processOms stopOnTick
        (.tick { symbol := "rb2410", exchange := .shfe, lastPrice := 3400 })) := by
  have hold := references_hold_iff stopOnTick silent {"Dual"} placedOnTick "STOP.2"
    { symbol := "rb2410", exchange := .shfe, lastPrice := 3400 } (n := 2) (by decide +kernel)
  have book : (run stopOnTick {"Dual"} placedOnTick).stopOrders.toList.map Prod.snd =
      [{ ktSymbol := "rb2410.SHFE", direction := .long, offset := .opening, price := 3500
         volume := 1, stopOrderid := "STOP.1", strategyName := "alpha" }] := by
    decide +kernel
  refine ⟨hold.1.mpr (by decide +kernel), hold.2.mpr ?_⟩
  rw [book, Refused, if_neg (by decide +kernel)]
  trivial

/-- Both functions go on using the entry that they erase. -/
theorem erased_entry_used :
    (¬ ∀ (env : Environment) (call : Ptr → Callback → BookHandler Unit)
      (classes : ExtTreeSet AString) (ops : List Op) (stopOrderid : AString),
      ¬Dangles (cancelThrough call stopOrderid) (run env classes ops)) ∧
    ¬ ∀ (env : Environment) (call : Ptr → Callback → BookHandler Unit)
      (classes : ExtTreeSet AString) (ops : List Op) (tick : TickData) (n : ℕ),
      ¬Dangles (passThrough env call tick n none)
        ((run env classes ops).processOms env (.tick tick)) := by
  constructor
  · intro all
    exact all stopOnTick silent {"Dual"} placedOnTick "STOP.1" (by unfold Dangles; decide +kernel)
  · intro all
    exact all stopOnTick silent {"Dual"} placedOnTick
      { symbol := "rb2410", exchange := .shfe, lastPrice := 3600 } 2
      (by unfold Dangles; decide +kernel)

end Triggered

end CtaEngine

end KeenTrader.App
