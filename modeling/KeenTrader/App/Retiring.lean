import KeenTrader.App.Volumes

/-!
# The end of a triggered stop order

The order for a stop order may be divided into several requests, of which the exchange may accept
some. The stop order is retired as soon as one of them is accepted, and then nothing stands for the
volume of those that were refused.
-/

namespace KeenTrader.App

open Std (ExtTreeMap ExtTreeSet)
open Containers KeenTrader.Engine

namespace CtaEngine

section Answers
variable (env : Environment)

/-- The requests that are sent to an exchange, with the id that each is given if it is accepted. -/
def answers (p : Ptr) (exchangeName : AString) :
    List OrderRequest → CtaEngine → List (OrderRequest × Option AString)
  | [], _ => []
  | req :: reqs, s =>
    let (ktOrderid, s) := sendRequest env s p req exchangeName
    (req, ktOrderid) :: answers p exchangeName reqs s

/-- The answers to the requests of a visit. -/
def stopAnswers (s : CtaEngine) (tick : TickData) (p : Ptr) (contract : ContractData)
    (so : StopOrder) : List (OrderRequest × Option AString) :=
  let (reqs, oms) := s.oms.boundConvertOrderRequest (stopRequest contract tick so)
    contract.exchangeName so.lock so.net
  answers env p contract.exchangeName reqs { s with oms }

end Answers

variable {env : Environment} {s t : CtaEngine} {tick : TickData} {p : Ptr}
  {contract : ContractData} {so : StopOrder}

theorem ids_sendRequests (p : Ptr) (exchangeName : AString) (reqs : List OrderRequest)
    (s : CtaEngine) : (sendRequests env p exchangeName reqs s).1 =
      (answers env p exchangeName reqs s).filterMap Prod.snd := by
  induction reqs generalizing s with
  | nil => rfl
  | cons req reqs ih =>
    unfold sendRequests answers
    simp only
    rw [ih]
    cases (sendRequest env s p req exchangeName).1 <;> rfl

/-- Nothing else happens while requests are sent. -/
theorem trace_sendRequests (p : Ptr) (exchangeName : AString) (reqs : List OrderRequest)
    (s : CtaEngine) : (sendRequests env p exchangeName reqs s).2.trace = s.trace ++
      (answers env p exchangeName reqs s).map fun a =>
        .sendOrder p (s.objects p).trading a.1 exchangeName a.2 := by
  induction reqs generalizing s with
  | nil => simp [sendRequests, answers]
  | cons req reqs ih =>
    have first : (sendRequest env s p req exchangeName).2.trace = s.trace ++
        [.sendOrder p (s.objects p).trading req exchangeName
          (sendRequest env s p req exchangeName).1] := by
      rcases sendRequest_cases env s p req exchangeName with ⟨-, eq⟩ | ⟨_, -, eq⟩
      · rw [eq]
        rfl
      · rw [eq]
    have objects : (sendRequest env s p req exchangeName).2.objects = s.objects := by
      rcases sendRequest_cases env s p req exchangeName with ⟨-, eq⟩ | ⟨_, -, eq⟩
      · rw [eq]
        rfl
      · rw [eq]
    have rest := ih (sendRequest env s p req exchangeName).2
    rw [first, objects, List.append_assoc] at rest
    exact rest

theorem ids_sendTriggered (env : Environment) (s : CtaEngine) (tick : TickData) (p : Ptr)
    (contract : ContractData) (so : StopOrder) :
    (sendTriggered env s tick p contract so).1 =
      (stopAnswers env s tick p contract so).filterMap Prod.snd :=
  ids_sendRequests _ _ _ _

theorem trace_sendTriggered (env : Environment) (s : CtaEngine) (tick : TickData) (p : Ptr)
    (contract : ContractData) (so : StopOrder) :
    (sendTriggered env s tick p contract so).2.trace = s.trace ++
      (stopAnswers env s tick p contract so).map fun a =>
        .sendOrder p (s.objects p).trading a.1 contract.exchangeName a.2 :=
  trace_sendRequests _ _ _ _

/-- The strategy is told that the stop order has been triggered. -/
def ToldTriggered (s t : CtaEngine) (stopOrderid : AString) : Prop :=
  ∃ p told, .callback p (.onStopOrder told) ∈ since s t ∧ told.stopOrderid = stopOrderid ∧
    told.status = .triggered

def acceptedVolume (answers : List (OrderRequest × Option AString)) : ℚ :=
  ((answers.filter (·.2.isSome)).map (·.1.volume)).sum

/-- A waiting stop order in the book stands for a volume of the given one. -/
def StandsFor (s : CtaEngine) (so : StopOrder) (volume : ℚ) : Prop :=
  ∃ (id : AString) (other : StopOrder), s.stopOrders[id]? = some other ∧ other.status = .waiting ∧
    other.ktSymbol = so.ktSymbol ∧ other.direction = so.direction ∧ other.offset = so.offset ∧
    other.volume = volume

/-- The stop order is retired only if every request was accepted. Unless there were requests and
they were all accepted, what has not been placed is still in the book. -/
structure KeepsUnplaced (s t : CtaEngine) (so : StopOrder)
    (answers : List (OrderRequest × Option AString)) : Prop where
  retired : ToldTriggered s t so.stopOrderid → ∀ a ∈ answers, a.2.isSome
  waits : ¬(answers ≠ [] ∧ ∀ a ∈ answers, a.2.isSome) →
    StandsFor t so (so.volume - acceptedVolume answers)

theorem acceptedVolume_of_refused {answers : List (OrderRequest × Option AString)}
    (refused : ∀ a ∈ answers, a.2 = none) : acceptedVolume answers = 0 := by
  have nothing : answers.filter (·.2.isSome) = [] :=
    List.filter_eq_nil_iff.mpr fun a mem => by simp [refused a mem]
  rw [acceptedVolume, nothing]
  rfl

variable (env p) in
/-- A visit that has an order accepted tells the strategy that the stop order is triggered. -/
theorem toldTriggered_visit {told : StopOrder} (grows : s.trace <+: t.trace)
    (id : told.stopOrderid = so.stopOrderid) (status : told.status = .triggered) :
    ToldTriggered s ((call env p (.onStopOrder told)
      (t.dropStopOrder p so.stopOrderid)).putStopOrderEvent told) so.stopOrderid := by
  have tells : Moves env _ _ := (moves_call env p (.onStopOrder told)
    (t.dropStopOrder p so.stopOrderid)).trans (moves_putStopOrderEvent _ told)
  obtain ⟨before, sends⟩ := grows
  obtain ⟨after, trace⟩ := tells.grows
  refine ⟨p, told, ?_, id, status⟩
  rw [since, ← trace]
  change _ ∈ (t.trace ++ [_] ++ after).drop _
  rw [← sends, List.append_assoc, List.append_assoc, List.drop_left]
  simp

/-- One that has none accepted does not. -/
theorem not_toldTriggered (env : Environment) (s : CtaEngine) (tick : TickData) (p : Ptr)
    (contract : ContractData) (so : StopOrder) (id : AString) :
    ¬ToldTriggered s (sendTriggered env s tick p contract so).2 id := by
  rintro ⟨q, told, mem, -⟩
  rw [since, trace_sendTriggered, List.drop_left] at mem
  obtain ⟨a, -, eq⟩ := List.mem_map.mp mem
  cases eq

/-- A visit keeps what has not been placed exactly if all of its requests are accepted, or none. -/
theorem keeps_unplaced_iff (stored : s.stopOrders[so.stopOrderid]? = some so)
    (waiting : so.status = .waiting) (triggers : Triggers tick so)
    (owner : s.strategies[so.strategyName]? = some p)
    (found : s.oms.getContract so.ktSymbol = some contract)
    (visited : checkOne env s tick so = some t) :
    KeepsUnplaced s t so (stopAnswers env s tick p contract so) ↔
      (∀ a ∈ stopAnswers env s tick p contract so, a.2.isSome) ∨
        ∀ a ∈ stopAnswers env s tick p contract so, a.2 = none := by
  have ids := ids_sendTriggered env s tick p contract so
  rcases checkOne_cases env s tick so with
    ⟨idle, -⟩ | ⟨-, missing, -⟩ | ⟨q, c, -, owner', found', last⟩
  · exact absurd triggers idle
  · simp [owner, found] at missing
  obtain rfl := Option.some.inj (owner.symm.trans owner')
  obtain rfl := Option.some.inj (found.symm.trans found')
  have book := stopOrders_sendTriggered env s tick p contract so
  have silent := not_toldTriggered env s tick p contract so so.stopOrderid
  have sends : s.trace <+: (sendTriggered env s tick p contract so).2.trace := by
    rw [trace_sendTriggered]
    exact List.prefix_append _ _
  rcases last with ⟨u, eq, same⟩ | ⟨id, rest, u, told, eq, told_eq, same⟩
  · obtain rfl := Option.some.inj (same.symm.trans visited)
    rw [eq] at ids book silent
    have refused : ∀ a ∈ stopAnswers env s tick p contract so, a.2 = none := fun a mem =>
      List.filterMap_eq_nil_iff.mp ids.symm a mem
    refine iff_of_true ⟨fun told => absurd told silent, fun _ => ?_⟩ (.inr refused)
    refine ⟨so.stopOrderid, so, by rw [book]; exact stored, waiting, rfl, rfl, rfl, ?_⟩
    rw [acceptedVolume_of_refused refused, sub_zero]
  · obtain rfl := Option.some.inj (same.symm.trans visited)
    rw [eq] at ids sends
    have id_eq : told.stopOrderid = so.stopOrderid := by rw [told_eq]
    have status_eq : told.status = .triggered := by rw [told_eq]
    have retired := toldTriggered_visit env p sends id_eq status_eq
    have some_accepted : ¬∀ a ∈ stopAnswers env s tick p contract so, a.2 = none := by
      intro refused
      rw [List.filterMap_eq_nil_iff.mpr refused] at ids
      simp at ids
    rw [or_iff_left some_accepted]
    refine ⟨fun keeps => keeps.retired retired, fun accepted => ⟨fun _ => accepted, fun some => ?_⟩⟩
    refine absurd ⟨?_, accepted⟩ some
    rintro none
    exact some_accepted (by simp [none])

section Refused

def soybeans : ContractData :=
  { symbol := "m2409", exchange := .dce, product := .futures, pricetick := 1
    exchangeName := "CTP" }

/-- The stop order sells two lots. -/
def sellsTwo : StopOrder :=
  { ktSymbol := "m2409.DCE", direction := .short, offset := .close, price := 3000, volume := 2
    stopOrderid := "STOP.1", strategyName := "alpha" }

/-- One lot is held, and the stop order is in the book. -/
def oneHeld : CtaEngine :=
  { oms :=
      { contracts := {("m2409.DCE", soybeans)}
        offsetConverters := {("CTP",
          { address := 0
            holdings := {("m2409.DCE", (PositionHolding.ofContract soybeans).updatePosition
              { symbol := "m2409", exchange := .dce, direction := .long, volume := 1
                ydVolume := 1 })} })} }
    objects := fun _ => { strategyName := "alpha", ktSymbol := "m2409.DCE", trading := true }
    strategies := {("alpha", 0)}
    stopOrders := {("STOP.1", sellsTwo)} }

def slide : TickData := { symbol := "m2409", exchange := .dce, lastPrice := 2900 }

/-- An exchange that takes closing orders only. -/
def onlyCloses : Environment :=
  { buyOnTick with
    accept _ req exchangeName :=
      if isStopOrderid exchangeName ∨ req.offset = .opening then none else some "1"
    react _ _ _ := []
    accept_name s req exchangeName orderid accepted := by
      cases stop : isStopOrderid exchangeName with
      | false => rfl
      | true => simp [stop] at accepted }

theorem visited_oneHeld : (checkOne buyOnTick oneHeld slide sellsTwo).isSome := by decide +kernel

/-- Both parts are accepted. -/
theorem both_accepted :
    KeepsUnplaced oneHeld ((checkOne buyOnTick oneHeld slide sellsTwo).get visited_oneHeld) sellsTwo
      (stopAnswers buyOnTick oneHeld slide 0 soybeans sellsTwo) :=
  (keeps_unplaced_iff (by decide +kernel) rfl (by decide +kernel) (by decide +kernel)
    (by decide +kernel) (Option.some_get _).symm).mpr (.inl (by decide +kernel))

def isTriggered (stopOrderid : AString) : Effect → Bool
  | .callback _ (.onStopOrder told) => told.stopOrderid = stopOrderid ∧ told.status = .triggered
  | _ => false

/-- The lot that is closed retires the stop order, and the one that is refused is forgotten. -/
theorem refused_forgotten :
    ¬ ∀ (env : Environment) (s t : CtaEngine) (tick : TickData) (p : Ptr) (contract : ContractData)
      (so : StopOrder), s.stopOrders[so.stopOrderid]? = some so → so.status = .waiting →
      Triggers tick so → s.strategies[so.strategyName]? = some p →
      s.oms.getContract so.ktSymbol = some contract → checkOne env s tick so = some t →
      ((stopAnswers env s tick p contract so).map (·.1.volume)).sum = so.volume ∨
        stopAnswers env s tick p contract so = [] →
      KeepsUnplaced s t so (stopAnswers env s tick p contract so) := by
  intro all
  have tells : (checkOne onlyCloses oneHeld slide sellsTwo).map
      (fun t => (since oneHeld t).any (isTriggered "STOP.1")) = some true := by
    decide +kernel
  obtain ⟨t, visited, told⟩ := Option.map_eq_some_iff.mp tells
  obtain ⟨e, mem, triggered⟩ := List.any_eq_true.mp told
  have keeps := all onlyCloses oneHeld t slide 0 soybeans sellsTwo (by decide +kernel) rfl
    (by decide +kernel) (by decide +kernel) (by decide +kernel) visited (.inl (by decide +kernel))
  have retired : ToldTriggered oneHeld t "STOP.1" := by
    unfold isTriggered at triggered
    split at triggered
    · rename_i q so
      exact ⟨q, so, mem, of_decide_eq_true triggered⟩
    · simp at triggered
  exact absurd (keeps.retired retired) (by decide +kernel)

end Refused

end CtaEngine

end KeenTrader.App
