import KeenTrader.App.StopOrders

/-!
# The book of stop orders

What strategies do when they are told of a stop order, said with what the book is about: what they
place is of an instrument that is known, and what they drop is cancelled. So in every run the stop
orders are in the book under their ids, with known instruments, and an entry is never replaced.
-/

namespace KeenTrader.App

open Std (ExtTreeMap ExtTreeSet)
open Containers Handlers Runs KeenTrader.Engine

namespace CtaEngine

variable {env : Environment} {s t u : CtaEngine}

/-! ## What a strategy does when it is told of a stop order -/

/-- A relation between states that what strategies do keeps within. It says more of the moves than
`Move`: what is placed is of an instrument that is known, and what strategies drop is cancelled. -/
structure Closed (env : Environment) (R : CtaEngine → CtaEngine → Prop) : Prop where
  refl : ∀ s, R s s
  trans : ∀ {s t u}, R s t → R t u → R s u
  quiet : ∀ s e, notice e = none → R s (s.emit e)
  convert : ∀ (s : CtaEngine) req exchangeName lock net,
    R s { s with oms := (s.oms.boundConvertOrderRequest req exchangeName lock net).2 }
  send : ∀ s p req exchangeName, R s (sendRequest env s p req exchangeName).2
  place : ∀ (s : CtaEngine) p so, (s.oms.getContract so.ktSymbol).isSome →
    so.stopOrderid = localId s.stopOrderCount → so.status = .waiting →
    R s ((s.placeStopOrder p so).emit (.callback p (.onStopOrder so)))
  cancel : ∀ (s : CtaEngine) p stopOrderid so, s.stopOrders[stopOrderid]? = some so →
    R s ((s.dropStopOrder p stopOrderid).emit
      (.callback p (.onStopOrder { so with status := .cancelled })))

namespace Closed
variable {R : CtaEngine → CtaEngine → Prop} (closed : Closed env R)
include closed

theorem writeLog (s : CtaEngine) (msg : AString) (strategy : Option Ptr) :
    R s (s.writeLog msg strategy) := by
  cases strategy <;> exact closed.quiet s _ rfl

theorem sendServerOrder (s : CtaEngine) (p : Ptr) (contract : ContractData) (direction : Direction)
    (offset : Offset) (price volume : ℚ) (type : Engine.OrderType) (lock net : Bool) :
    R s (CtaEngine.sendServerOrder env s p contract direction offset price volume type lock
      net).2 := by
  have requests : ∀ (reqs : List OrderRequest) s,
      R s (sendRequests env p contract.exchangeName reqs s).2 := by
    intro reqs
    induction reqs with
    | nil => exact closed.refl
    | cons req reqs ih => exact fun s => closed.trans (closed.send s p req _) (ih _)
  exact closed.trans (closed.convert s _ _ lock net) (requests _ _)

variable {runner : Runner}
  (calls : ∀ p so s, R (s.emit (.callback p (.onStopOrder so))) (runner p (.onStopOrder so) s))
include calls

theorem sendOrder (s : CtaEngine) (p : Ptr) (direction : Direction) (offset : Offset)
    (price volume : ℚ) (stop lock net : Bool) :
    R s (CtaEngine.sendOrder env runner s p direction offset price volume stop lock net).2 := by
  unfold CtaEngine.sendOrder
  cases found : s.oms.getContract (s.objects p).ktSymbol with
  | none => exact closed.writeLog s _ (some p)
  | some contract =>
    simp only
    split
    · split
      · exact closed.sendServerOrder s p contract _ _ _ _ _ _ _
      · have placed := closed.place s p
          { ktSymbol := (s.objects p).ktSymbol, direction, offset
            price := roundTo price contract.pricetick, volume := roundTo volume contract.minVolume
            stopOrderid := localId s.stopOrderCount, strategyName := (s.objects p).strategyName
            lock, net } (by simp [found]) rfl rfl
        exact closed.trans placed (closed.trans (calls p _ _) (closed.quiet _ _ rfl))
    · exact closed.sendServerOrder s p contract _ _ _ _ _ _ _

theorem cancelOrder (s : CtaEngine) (p : Ptr) (ktOrderid : AString) :
    R s (CtaEngine.cancelOrder runner s p ktOrderid) := by
  unfold CtaEngine.cancelOrder
  split
  · unfold cancelLocalStopOrder
    cases found : s.stopOrders[ktOrderid]? with
    | none => exact closed.refl s
    | some so =>
      simp only
      split
      · exact closed.refl s
      · rename_i q owner
        exact closed.trans (closed.cancel s q ktOrderid so found)
          (closed.trans (calls q _ _) (closed.quiet _ _ rfl))
  · unfold cancelServerOrder
    split
    · exact closed.writeLog s _ _
    · exact closed.quiet _ _ rfl

theorem cancelOrders (p : Ptr) (ids : List AString) (s : CtaEngine) :
    R s (ids.foldl (fun s id => CtaEngine.cancelOrder runner s p id) s) := by
  exact foldl_relation _ (R := R) closed.refl closed.trans
    fun s id => closed.cancelOrder calls s p id

theorem templateCall (s : CtaEngine) (p : Ptr) (c : TemplateCall) :
    R s (CtaEngine.templateCall env runner s p c) := by
  unfold CtaEngine.templateCall
  split
  · cases c with
    | sendOrder direction offset price volume stop lock net =>
      exact closed.sendOrder calls s p _ _ _ _ _ _ _
    | cancelOrder ktOrderid => exact closed.cancelOrder calls s p ktOrderid
    | cancelAll => exact closed.cancelOrders calls p _ s
  · exact closed.refl s

omit calls in
/-- A strategy that is called back keeps within the relation, however deep it is told. -/
theorem callback (n : ℕ) (p : Ptr) (cb : Callback) (s : CtaEngine) :
    R (s.emit (.callback p cb)) (CtaEngine.callback env n p cb s) := by
  induction n generalizing p cb s with
  | zero => exact closed.refl _
  | succ n ih =>
    have calls : ∀ p so s, R (s.emit (.callback p (.onStopOrder so)))
        (CtaEngine.callback env n p (.onStopOrder so) s) := fun p so s => ih p _ s
    exact foldl_relation _ (R := R) closed.refl closed.trans
      fun s c => closed.templateCall calls s p c

omit calls in
theorem call (p : Ptr) (cb : Callback) (s : CtaEngine) :
    R (s.emit (.callback p cb)) (CtaEngine.call env p cb s) :=
  closed.callback env.depth p cb s

end Closed

/-! ## The book of a run -/

/-- Every stop order is in the book under its id, and its instrument is known. -/
def Filed (s : CtaEngine) : Prop :=
  ∀ (id : AString) so, s.stopOrders[id]? = some so →
    isStopOrderid id = true ∧ so.stopOrderid = id ∧ (s.oms.getContract so.ktSymbol).isSome

theorem Filed.of_same (filed : s.Filed) (book : t.stopOrders = s.stopOrders)
    (known : ∀ ktSymbol, (s.oms.getContract ktSymbol).isSome →
      (t.oms.getContract ktSymbol).isSome) : t.Filed := by
  intro id so stored
  rw [book] at stored
  obtain ⟨stop, keyed, contract⟩ := filed id so stored
  exact ⟨stop, keyed, known _ contract⟩

theorem Filed.place (filed : s.Filed) (p : Ptr) {so : StopOrder}
    (known : (s.oms.getContract so.ktSymbol).isSome)
    (id : so.stopOrderid = localId s.stopOrderCount) : (s.placeStopOrder p so).Filed := by
  intro other so' stored
  rcases getElem?_insert_cases stored with ⟨rfl, same⟩ | before
  · exact ⟨by rw [← same, id]; exact isStopOrderid_local _, same, known⟩
  · exact filed other so' before

theorem Filed.drop (filed : s.Filed) (p : Ptr) (stopOrderid : AString) :
    (s.dropStopOrder p stopOrderid).Filed := by
  intro id so stored
  simp only [dropStopOrder_stopOrders, ExtTreeMap.getElem?_erase] at stored
  split at stored
  · simp at stored
  · exact filed id so stored

theorem contracts_convert (s : OmsEngine) (req : OrderRequest) (exchangeName : AString)
    (lock net : Bool) :
    (s.boundConvertOrderRequest req exchangeName lock net).2.getContract = s.getContract := by
  unfold OmsEngine.boundConvertOrderRequest OmsEngine.convertOrderRequest
  split <;> rfl

theorem contracts_sendRequest (s : CtaEngine) (p : Ptr) (req : OrderRequest)
    (exchangeName : AString) :
    (sendRequest env s p req exchangeName).2.oms.getContract = s.oms.getContract := by
  rcases sendRequest_cases env s p req exchangeName with ⟨-, eq⟩ | ⟨_, -, eq⟩
  · rw [eq]
    rfl
  · rw [eq]
    exact OmsEngine.modifyConverter_getContract _ _ _

theorem stopOrders_sendRequest (s : CtaEngine) (p : Ptr) (req : OrderRequest)
    (exchangeName : AString) :
    (sendRequest env s p req exchangeName).2.stopOrders = s.stopOrders :=
  stopOrders_sendRequests p exchangeName [req] s

/-- From a book in which everything is filed to another, and what is no longer in it has been
cancelled. -/
structure Withdraws (s t : CtaEngine) : Prop where
  filed : t.Filed
  grows : s.trace <+: t.trace
  cancelled : ∀ id ∈ s.stopOrders, id ∈ t.stopOrders ∨ .cancelled ∈ told t.trace id

theorem mem_told_of_grows {id : AString} {status : StopOrderStatus} (grows : s.trace <+: t.trace)
    (mem : status ∈ told s.trace id) : status ∈ told t.trace id := by
  obtain ⟨new, trace⟩ := grows
  rw [← trace, told_append]
  exact List.mem_append_left _ mem

theorem withdraws_of_same (filed : t.Filed) (book : t.stopOrders = s.stopOrders)
    (grows : s.trace <+: t.trace) : Withdraws s t :=
  ⟨filed, grows, fun id mem => .inl (by rwa [book])⟩

theorem Withdraws.trans (first : Withdraws s t) (second : Withdraws t u) : Withdraws s u where
  filed := second.filed
  grows := first.grows.trans second.grows
  cancelled id mem := by
    rcases first.cancelled id mem with there | told
    · exact second.cancelled id there
    · exact .inr (mem_told_of_grows second.grows told)

theorem closed_withdraws (env : Environment) : Closed env fun s t => s.Filed → Withdraws s t where
  refl s filed := withdraws_of_same filed rfl (List.prefix_refl _)
  trans first second filed := (first filed).trans (second (first filed).filed)
  quiet s e _ filed := withdraws_of_same filed rfl (List.prefix_append _ _)
  convert s req exchangeName lock net filed := by
    refine withdraws_of_same (filed.of_same rfl fun k known => ?_) rfl (List.prefix_refl _)
    rwa [contracts_convert]
  send s p req exchangeName filed := by
    have book : (sendRequest env s p req exchangeName).2.stopOrders = s.stopOrders :=
      stopOrders_sendRequest s p req exchangeName
    refine withdraws_of_same (filed.of_same book fun k known => ?_) book ?_
    · rwa [contracts_sendRequest]
    · rcases sendRequest_cases env s p req exchangeName with ⟨-, eq⟩ | ⟨_, -, eq⟩ <;> rw [eq] <;>
        exact List.prefix_append _ _
  place s p so known id _ filed := by
    refine ⟨filed.place p known id, List.prefix_append _ _, fun other mem => .inl ?_⟩
    exact ExtTreeMap.mem_insert.mpr (.inr mem)
  cancel s p stopOrderid so found filed := by
    refine ⟨filed.drop p stopOrderid, List.prefix_append _ _, fun id mem => ?_⟩
    obtain ⟨stop, keyed, -⟩ := filed _ so found
    by_cases same : stopOrderid = id
    · subst same
      refine .inr ?_
      have booked :
          isStopOrderid ({ so with status := .cancelled } : StopOrder).stopOrderid = true :=
        keyed.symm ▸ stop
      rw [told_notice _ _ booked]
      simp [keyed]
    · exact .inl (ExtTreeMap.mem_erase.mpr ⟨by simpa using same, mem⟩)

theorem Withdraws.emit (withdraws : Withdraws s t) (e : Effect) : Withdraws s (t.emit e) :=
  withdraws.trans (withdraws_of_same withdraws.filed rfl (List.prefix_append _ _))

theorem withdraws_emit (filed : s.Filed) (e : Effect) : Withdraws s (s.emit e) :=
  withdraws_of_same filed rfl (List.prefix_append _ _)

variable (env) in
theorem withdraws_call (p : Ptr) (cb : Callback) (filed : s.Filed) :
    Withdraws s (call env p cb s) :=
  have first := withdraws_emit filed (.callback p cb)
  first.trans ((closed_withdraws env).call p cb s first.filed)

/-- A visit withdraws no stop order but the one that it is at. -/
theorem withdraws_visit {tick : TickData} {key : AString} {so : StopOrder} (filed : s.Filed)
    (stored : s.stopOrders[key]? = some so) (visited : checkOne env s tick so = some t) :
    t.Filed ∧ s.trace <+: t.trace ∧
      ∀ id ∈ s.stopOrders, id ≠ key → id ∈ t.stopOrders ∨ .cancelled ∈ told t.trace id := by
  obtain ⟨-, keyed, -⟩ := filed key so stored
  rcases checkOne_cases env s tick so with
    ⟨-, same⟩ | ⟨-, -, threw⟩ | ⟨p, contract, -, -, -, last⟩
  · obtain rfl := Option.some.inj (same.symm.trans visited)
    exact ⟨filed, List.prefix_refl _, fun id mem _ => .inl mem⟩
  · simp [threw] at visited
  · have sends : Withdraws s (sendTriggered env s tick p contract so).2 :=
      (closed_withdraws env).sendServerOrder s p contract _ _ _ _ _ so.lock so.net filed
    rcases last with ⟨u, eq, same⟩ | ⟨_, _, u, told, eq, -, same⟩
    · obtain rfl := Option.some.inj (same.symm.trans visited)
      rw [eq] at sends
      exact ⟨sends.filed, sends.grows, fun id mem _ => sends.cancelled id mem⟩
    · obtain rfl := Option.some.inj (same.symm.trans visited)
      rw [eq] at sends
      have dropped := sends.filed.drop p so.stopOrderid
      have tells := (withdraws_call env p (.onStopOrder told) dropped).emit (.stopOrderEvent told)
      refine ⟨tells.filed, sends.grows.trans tells.grows, fun id mem other => ?_⟩
      rcases sends.cancelled id mem with there | gone
      · refine tells.cancelled id (ExtTreeMap.mem_erase.mpr ⟨?_, there⟩)
        simpa [keyed] using other.symm
      · exact .inr (mem_told_of_grows tells.grows gone)

variable (env) in
theorem filed_pass (tick : TickData) (n : ℕ) (after : Option AString) (filed : s.Filed) :
    (checkStopOrders env tick n after s).1.Filed := by
  induction n generalizing after s with
  | zero => exact filed
  | succ n ih =>
    unfold checkStopOrders
    cases next : s.nextStopOrder after with
    | none => exact filed
    | some entry =>
      obtain ⟨key, so⟩ := entry
      simp only
      cases visited : checkOne env s tick so with
      | none => exact filed
      | some u =>
        exact ih _ (withdraws_visit filed (nextStopOrder_stored next) visited).1

theorem filed_foldl_onTick (tick : TickData) (strategies : List Ptr) (filed : s.Filed) :
    (strategies.foldl (fun s p =>
      if (s.objects p).inited then call env p (.onTick tick) s else s) s).Filed := by
  refine foldl_invariant _ (P := Filed) (fun s p filed => ?_) filed
  exact iteInduction (motive := Filed) (fun _ => (withdraws_call env p _ filed).filed)
    fun _ => filed

/-- An instrument that is known remains known. -/
theorem known_process (oms : OmsEngine) (e : OmsEvent) {ktSymbol : AString}
    (known : (oms.getContract ktSymbol).isSome) :
    ((oms.process env.enum e).getContract ktSymbol).isSome := by
  cases e with
  | tick tick => exact known
  | account account => exact known
  | quote quote => exact known
  | order order =>
    exact (congrFun (OmsEngine.modifyConverter_getContract _ _ _) ktSymbol).symm ▸ known
  | trade trade =>
    exact (congrFun (OmsEngine.modifyConverter_getContract _ _ _) ktSymbol).symm ▸ known
  | position position =>
    exact (congrFun (OmsEngine.modifyConverter_getContract _ _ _) ktSymbol).symm ▸ known
  | contract c =>
    have inserted : ((oms.contracts.insert c.ktSymbol c)[ktSymbol]?).isSome := by
      unfold OmsEngine.getContract at known
      rw [ExtTreeMap.getElem?_insert]
      split
      · rfl
      · exact known
    simp only [OmsEngine.process, OmsEngine.processContractEvent, OmsEngine.getContract]
    split <;> exact inserted

theorem Filed.processOms (filed : s.Filed) (e : OmsEvent) : (s.processOms env e).Filed :=
  filed.of_same rfl fun _ => known_process s.oms e

theorem Filed.processTickEvent (filed : s.Filed) (tick : TickData) :
    (s.processTickEvent env tick).Filed := by
  unfold CtaEngine.processTickEvent
  split
  · exact filed
  · have pass := filed_pass env tick env.passes none filed
    exact iteInduction (motive := Filed) (fun _ => filed_foldl_onTick tick _ pass) fun _ => pass

theorem Filed.processOrderEvent (filed : s.Filed) (order : OrderData) :
    (s.processOrderEvent env order).Filed := by
  unfold CtaEngine.processOrderEvent
  split
  · exact filed
  · rename_i p owner
    have call := fun (s : CtaEngine) cb (filed : s.Filed) => (withdraws_call env p cb filed).filed
    simp only
    apply call
    refine iteInduction (motive := Filed) (fun _ => call _ _ ?_) fun _ => ?_ <;>
      exact iteInduction (motive := Filed) (fun _ => filed) fun _ => filed

theorem Filed.processTradeEvent (filed : s.Filed) (trade : TradeData) :
    (s.processTradeEvent env trade).Filed := by
  unfold CtaEngine.processTradeEvent processNewTrade
  split
  · exact filed
  · split
    · exact filed
    · rename_i p owner
      have call := fun (s : CtaEngine) (filed : s.Filed) =>
        (withdraws_call env p (.onTrade trade) filed).filed
      exact call _ filed

theorem Filed.initStrategy (filed : s.Filed) (name : AString) :
    (s.initStrategy env name).Filed := by
  unfold CtaEngine.initStrategy withStrategy
  split
  · rename_i p registered
    refine iteInduction (motive := Filed) (fun _ => filed) fun _ => ?_
    have called : (CtaEngine.call env p .onInit
        (s.writeLog (name ++ " starts initialization") none)).Filed :=
      (withdraws_call env p .onInit (s := s.writeLog _ none) filed).filed
    simp only
    split <;> exact called
  · exact filed

theorem Filed.startStrategy (filed : s.Filed) (name : AString) :
    (s.startStrategy env name).Filed := by
  unfold CtaEngine.startStrategy withStrategy
  split
  · rename_i p registered
    refine iteInduction (motive := Filed) (fun _ => filed) fun _ => ?_
    refine iteInduction (motive := Filed) (fun _ => filed) fun _ => ?_
    exact (withdraws_call env p .onStart filed).filed
  · exact filed

theorem Filed.stopStrategy (filed : s.Filed) (name : AString) :
    (s.stopStrategy env name).Filed := by
  unfold CtaEngine.stopStrategy withStrategy
  split
  · rename_i p registered
    refine iteInduction (motive := Filed) (fun _ => ?_) fun _ => filed
    have called := (withdraws_call env p .onStop filed).filed
    have cancels := fun (s : CtaEngine) ids (filed : s.Filed) =>
      ((closed_withdraws env).cancelOrders (fun p so => (closed_withdraws env).call p _) p ids s
        filed).filed
    exact cancels _ _ called
  · exact filed

theorem filed_saveSetting (filed : s.Filed) (name : AString) (p : Ptr) (setting : Json.Value) :
    (Handler.state (do
      updateStrategySetting name p setting
      modify (·.putStrategyEvent p)) s).Filed := by
  rcases saveSetting_cases s name setting p with ⟨v, -, eq⟩ | ⟨e, -, eq⟩ <;> rw [eq] <;> exact filed

theorem Filed.step (filed : s.Filed) (op : Op) : (s.step env op).Filed := by
  cases op with
  | contract c => exact filed.processOms _
  | position p => exact filed.processOms _
  | order o => exact (filed.processOms _).processOrderEvent o
  | trade t => exact (filed.processOms _).processTradeEvent t
  | tick t => exact (filed.processOms _).processTickEvent t
  | addStrategy className name ktSymbol setting =>
    rw [CtaEngine.step]
    rcases addStrategy_cases s className name ktSymbol setting with ⟨-, msg, eq⟩ | ⟨-, eq⟩
    · rw [eq]
      exact filed
    · rw [eq]
      exact filed_saveSetting (s := s.register className name ktSymbol) filed name _ setting
  | initStrategy name => exact filed.initStrategy name
  | startStrategy name => exact filed.startStrategy name
  | stopStrategy name => exact filed.stopStrategy name
  | editStrategy name setting =>
    simp only [CtaEngine.step, editStrategy, withStrategy]
    split
    · exact filed_saveSetting filed name _ setting
    · exact filed
  | removeStrategy name =>
    simp only [CtaEngine.step, removeStrategy, withStrategy]
    rw [removeStrategySetting_eq]
    split
    · exact iteInduction (motive := Filed) (fun _ => filed) fun _ => filed
    · exact filed

variable (env) in
theorem filed_run (classes : ExtTreeSet AString) (ops : List Op) : (run env classes ops).Filed :=
  foldl_invariant (step env) (fun _ op filed => filed.step op) fun _ _ stored => by simp at stored

/-! ## The entries under ids that have been given out -/

/-- Under an id that has been given out there is what was there before, or nothing. -/
structure Keeps (s t : CtaEngine) : Prop where
  count : s.stopOrderCount ≤ t.stopOrderCount
  entry : ∀ n < s.stopOrderCount, ∀ so, t.stopOrders[localId n]? = some so →
    s.stopOrders[localId n]? = some so

theorem Keeps.refl (s : CtaEngine) : Keeps s s := ⟨le_rfl, fun _ _ _ => id⟩

theorem Keeps.trans (first : Keeps s t) (second : Keeps t u) : Keeps s u where
  count := first.count.trans second.count
  entry n before so stored :=
    first.entry n before so (second.entry n (before.trans_le first.count) so stored)

theorem keeps_of_same (count : t.stopOrderCount = s.stopOrderCount)
    (book : t.stopOrders = s.stopOrders) : Keeps s t :=
  ⟨count.ge, fun n _ so stored => by rwa [book] at stored⟩

theorem Move.keeps (move : Move env s t) : Keeps s t := by
  cases move with
  | quiet e action silent => exact keeps_of_same rfl rfl
  | convert req exchangeName lock net => exact keeps_of_same rfl rfl
  | send p req exchangeName trading =>
    rcases sendRequest_cases env s p req exchangeName with ⟨-, eq⟩ | ⟨_, -, eq⟩ <;> rw [eq] <;>
      exact keeps_of_same rfl rfl
  | issue p so trading owner id status =>
    refine ⟨Nat.le_succ _, fun n before other stored => ?_⟩
    have apart : ¬so.stopOrderid = localId n := by
      rw [id]
      exact fun same => before.ne' (localId_injective same)
    simpa [ExtTreeMap.getElem?_insert, apart] using stored
  | retire p stopOrderid so told stop found owner id status =>
    refine ⟨le_rfl, fun n before other stored => ?_⟩
    simp only [emit_stopOrders, dropStopOrder_stopOrders, ExtTreeMap.getElem?_erase] at stored
    grind

theorem Moves.keeps (moves : Moves env s t) : Keeps s t := by
  induction moves with
  | refl => exact .refl _
  | tail _ move ih => exact ih.trans move.keeps

/-- The ids of the book are among those that have been given out. -/
theorem Tracked.given (tracked : s.Tracked) {id : AString} {so : StopOrder}
    (stored : s.stopOrders[id]? = some so) : ∃ n < s.stopOrderCount, id = localId n := by
  have issued := mem_issued.mpr (tracked.waiting id so stored ▸ List.mem_singleton_self _)
  rw [tracked.numbered] at issued
  obtain ⟨n, before, same⟩ := List.mem_map.mp issued
  exact ⟨n, List.mem_range.mp before, same.symm⟩

end CtaEngine

end KeenTrader.App
