import KeenTrader.Exchange.OkxChannel

/-!
# Rejected orders on OKX

A reply to an `order` request reports a failure in its own code, or in the code of the order.
The second kind is found through the order's id. The first kind is looked up in a map of
requests that no function fills, so that the order stays as it was.
-/

namespace KeenTrader.Exchange.OkxExchange

open Std (ExtTreeMap)
open KeenTrader.Engine Handlers Runs Okx

variable {s t : OkxExchange} {orderid : AString}

/-! ## Replies -/

/-- What a reply says about one order. -/
structure Outcome where
  clOrdId : AString
  sCode : AString
  sMsg : AString

structure Outcome.Encodes (outcome : Outcome) (d : Json.Value) : Prop where
  clOrdId : d.get? "clOrdId" = some (.string outcome.clOrdId)
  sCode : d.get? "sCode" = some (.string outcome.sCode)
  sMsg : d.get? "sMsg" = some (.string outcome.sMsg)

/-- A reply to the `order` request `id`. Where its code is 0 its data lists an outcome for each
order; otherwise it may have any data or none. -/
structure Reply where
  packet : Json.Value
  id : AString
  code : AString
  outcomes : List Outcome
  event : packet.get? "event" = none
  op : packet.get? "op" = some (.string "order")
  id_eq : packet.get? "id" = some (.string id)
  code_eq : packet.get? "code" = some (.string code)
  data : code = "0" → ∃ ds, packet.get? "data" = some (.array ds) ∧
    List.Forall₂ Outcome.Encodes outcomes ds

/-- The outcome is a failure of the order `orderid`. -/
def Outcome.Fails (outcome : Outcome) (orderid : AString) : Prop :=
  outcome.clOrdId = orderid ∧ outcome.sCode ≠ "0"

instance (outcome : Outcome) (orderid : AString) : Decidable (outcome.Fails orderid) :=
  inferInstanceAs (Decidable (_ ∧ _))

/-- The reply reports that the order has failed. -/
def Reply.Reports (r : Reply) (orderid : AString) : Prop :=
  r.code ≠ "0" ∨ ∃ outcome ∈ r.outcomes, outcome.Fails orderid

/-! ## The books of the exchange -/

/-- No request is mapped to an order, orders are stored under their ids, and each order that has
been sent is stored. -/
structure Books (s : OkxExchange) : Prop where
  unmapped : s.reqidOrderMap = ∅
  keyed : ∀ (id : AString) (o : OrderData), s.orders[id]? = some o → o.orderid = id
  stored : ∀ id orderid, s.Sent id orderid → orderid ∈ s.orders

theorem Sent.of_emit {e : Effect} {id : AString}
    (other : ∀ id args, e ≠ .packet (request id "order" args)) (sent : (s.emit e).Sent id orderid) :
    s.Sent id orderid := by
  obtain ⟨args, mem, id_at⟩ := sent
  rcases List.mem_append.mp mem with mem | mem
  · exact ⟨args, mem, id_at⟩
  · exact absurd (List.mem_singleton.mp mem).symm (other id args)

theorem Sent.of_onOrder {o : OrderData} {id : AString} (sent : (s.onOrder o).Sent id orderid) :
    s.Sent id orderid :=
  Sent.of_emit (s := { s with orders := s.orders.insert o.orderid o }) (e := .order o) (by simp)
    sent

theorem getElem?_onOrder (s : OkxExchange) (o : OrderData) (id : AString) :
    (s.onOrder o).orders[id]? = if o.orderid = id then some o else s.orders[id]? := by
  simp [onOrder, emit, ExtTreeMap.getElem?_insert]

theorem mem_onOrder (s : OkxExchange) (o : OrderData) (id : AString) :
    id ∈ (s.onOrder o).orders ↔ o.orderid = id ∨ id ∈ s.orders := by
  simp [onOrder, emit, ExtTreeMap.mem_insert]

theorem Books.onOrder (books : Books s) (o : OrderData) : Books (s.onOrder o) where
  unmapped := books.unmapped
  keyed id p found := by
    rw [getElem?_onOrder] at found
    split at found
    · obtain rfl := Option.some.inj found
      assumption
    · exact books.keyed id p found
  stored id orderid sent :=
    (mem_onOrder s o orderid).mpr (.inr (books.stored id orderid sent.of_onOrder))

/-- The invariant of the channel. -/
theorem kept_books : Kept Books where
  emit quiet books :=
    { unmapped := books.unmapped
      keyed := books.keyed
      stored := fun id orderid sent =>
        books.stored id orderid (sent.of_emit quiet.ne_request) }
  order o books := books.onOrder o
  parse {s} data books :=
    { unmapped := by simpa using books.unmapped
      keyed := by simpa using books.keyed
      stored := by
        intro id orderid sent
        have before : (s.emit (.parse data)).Sent id orderid := by simpa [Sent] using sent
        simpa using books.stored id orderid (before.of_emit (by simp)) }
  forget id books :=
    { unmapped := by simp [books.unmapped], keyed := books.keyed, stored := books.stored }
  ignore _ _ _ _ _ books :=
    { unmapped := books.unmapped, keyed := books.keyed, stored := books.stored }
  place {s id args o} id_at books := by
    refine { unmapped := books.unmapped, keyed := ?_, stored := ?_ }
    · exact (books.onOrder o).keyed
    · intro id' orderid sent
      rw [mem_onOrder]
      obtain ⟨args', mem, id_at'⟩ := sent.of_onOrder
      rcases List.mem_append.mp mem with mem | mem
      · exact .inr (books.stored id' orderid ⟨args', mem, id_at'⟩)
      · have same := request_inj.mp (Effect.packet.inj (List.mem_singleton.mp mem))
        rw [same.2.2, id_at] at id_at'
        exact .inl (by simpa using id_at')

theorem books_run (connectTime : ℕ) (steps : List Step) : Books (run connectTime steps) := by
  refine foldl_invariant step (fun _ l books => kept_books.step l books) ?_
  exact
    { unmapped := rfl
      keyed := fun id o found => by simp at found
      stored := fun id orderid sent => by simp [Sent] at sent }

/-! ## Handling a reply -/

/-- One round of the loop over the outcomes. -/
def applyOutcome (s : OkxExchange) (outcome : Outcome) : OkxExchange :=
  if outcome.sCode = "0" then s
  else
    let s := s.writeLog (rejectionText outcome.clOrdId outcome.sCode outcome.sMsg)
    match s.getOrder outcome.clOrdId with
    | some o => s.onOrder (rejected o)
    | none => s

theorem onResults_exec {outcomes : List Outcome} {ds : List Json.Value}
    (encoded : List.Forall₂ Outcome.Encodes outcomes ds) (s : OkxExchange) :
    (onResults ds).exec s = (.ok (), outcomes.foldl applyOutcome s) := by
  induction encoded generalizing s with
  | nil => rfl
  | @cons outcome d outcomes ds encodes _ ih =>
    unfold onResults Exchange.read
    rw [Json.Value.stringOr_of_get? encodes.sCode, Fault.ofJson_ok, exec_lift_ok_bind,
      List.foldl_cons, applyOutcome]
    split
    · exact ih s
    · rw [Json.Value.stringOr_of_get? encodes.clOrdId, Fault.ofJson_ok, exec_lift_ok_bind,
        Json.Value.stringOr_of_get? encodes.sMsg, Fault.ofJson_ok, exec_lift_ok_bind]
      unfold log
      rw [exec_modify_bind, exec_get_bind]
      dsimp only
      cases (s.writeLog _).getOrder outcome.clOrdId with
      | none => exact ih _
      | some o =>
        rw [reject, order, exec_modify_bind]
        exact ih _

section Outcomes
variable {outcome : Outcome} {outcomes : List Outcome} {o : OrderData}

theorem applyOutcome_of_none (failed : outcome.sCode ≠ "0")
    (absent : s.orders[outcome.clOrdId]? = none) :
    s.applyOutcome outcome =
      s.writeLog (rejectionText outcome.clOrdId outcome.sCode outcome.sMsg) := by
  simp [applyOutcome, failed, getOrder, writeLog, absent]

theorem applyOutcome_of_some (failed : outcome.sCode ≠ "0")
    (found : s.orders[outcome.clOrdId]? = some o) :
    s.applyOutcome outcome =
      (s.writeLog (rejectionText outcome.clOrdId outcome.sCode outcome.sMsg)).onOrder
        (rejected o) := by
  simp [applyOutcome, failed, getOrder, writeLog, found]

theorem Books.applyOutcome (books : Books s) (outcome : Outcome) :
    Books (s.applyOutcome outcome) := by
  by_cases ok : outcome.sCode = "0"
  · simpa [OkxExchange.applyOutcome, ok] using books
  · have logged := fun msg => kept_books.writeLog msg books
    cases found : s.orders[outcome.clOrdId]? with
    | none =>
      rw [applyOutcome_of_none ok found]
      exact logged _
    | some o =>
      rw [applyOutcome_of_some ok found]
      exact (logged _).onOrder _

/-- An outcome turns the order that it fails into a rejected one, and leaves the others. -/
theorem getElem?_applyOutcome (books : Books s) (outcome : Outcome) (id : AString) :
    (s.applyOutcome outcome).orders[id]? =
      if outcome.Fails id then s.orders[id]?.map rejected else s.orders[id]? := by
  by_cases ok : outcome.sCode = "0"
  · simp [applyOutcome, ok, Outcome.Fails]
  cases found : s.orders[outcome.clOrdId]? with
  | none =>
    rw [applyOutcome_of_none ok found]
    by_cases same : outcome.clOrdId = id
    · subst same
      simp [Outcome.Fails, ok, found, writeLog]
    · simp [Outcome.Fails, same, writeLog]
  | some o =>
    have at_id : (rejected o).orderid = outcome.clOrdId := books.keyed _ o found
    rw [applyOutcome_of_some ok found, getElem?_onOrder, at_id]
    by_cases same : outcome.clOrdId = id
    · subst same
      simp [Outcome.Fails, ok, found]
    · simp [Outcome.Fails, same, writeLog]

theorem getElem?_foldl_applyOutcome (books : Books s) (outcomes : List Outcome) (id : AString) :
    (outcomes.foldl applyOutcome s).orders[id]? =
      if ∃ outcome ∈ outcomes, outcome.Fails id then s.orders[id]?.map rejected
      else s.orders[id]? := by
  induction outcomes generalizing s with
  | nil => simp
  | cons outcome outcomes ih =>
    rw [List.foldl_cons, ih (books.applyOutcome outcome), getElem?_applyOutcome books]
    by_cases head : outcome.Fails id <;> by_cases tail : ∃ later ∈ outcomes, later.Fails id
    all_goals simp [head, tail, Function.comp_def]

/-- `on_order` is called with `o` on the way from `s` to `t`. -/
def Tells (s t : OkxExchange) (o : OrderData) : Prop :=
  ∃ new, t.trace = s.trace ++ new ∧ .order o ∈ new

theorem trace_applyOutcome (s : OkxExchange) (outcome : Outcome) :
    s.trace <+: (s.applyOutcome outcome).trace := by
  by_cases ok : outcome.sCode = "0"
  · simp [applyOutcome, ok]
  cases found : s.orders[outcome.clOrdId]? with
  | none => simp [applyOutcome_of_none ok found, writeLog]
  | some o => simp [applyOutcome_of_some ok found, writeLog, onOrder]

theorem trace_foldl_applyOutcome (s : OkxExchange) (outcomes : List Outcome) :
    s.trace <+: (outcomes.foldl applyOutcome s).trace :=
  foldl_relation applyOutcome (R := fun s t => s.trace <+: t.trace)
    (fun s => List.prefix_refl s.trace) List.IsPrefix.trans trace_applyOutcome

theorem tells_foldl_applyOutcome (books : Books s) {id : AString}
    (fails : ∃ outcome ∈ outcomes, outcome.Fails id) (found : s.orders[id]? = some o) :
    Tells s (outcomes.foldl applyOutcome s) (rejected o) := by
  induction outcomes generalizing s with
  | nil => simp at fails
  | cons outcome outcomes ih =>
    rw [List.foldl_cons]
    by_cases head : outcome.Fails id
    · obtain ⟨rfl, failed⟩ := head
      obtain ⟨later, eq⟩ := trace_foldl_applyOutcome (s.applyOutcome outcome) outcomes
      rw [applyOutcome_of_some failed found] at eq ⊢
      generalize rejectionText outcome.clOrdId outcome.sCode outcome.sMsg = text at eq ⊢
      refine ⟨[.log (logText exchangeName text), .order (rejected o)] ++ later, ?_, by simp⟩
      rw [← eq]
      simp [onOrder, writeLog]
    · have fails : ∃ outcome ∈ outcomes, outcome.Fails id := by simpa [head] using fails
      have found : (s.applyOutcome outcome).orders[id]? = some o := by
        rw [getElem?_applyOutcome books, if_neg head, found]
      obtain ⟨new, eq, mem⟩ := ih (books.applyOutcome outcome) fails found
      obtain ⟨first, before⟩ := trace_applyOutcome s outcome
      exact ⟨first ++ new, by rw [eq, ← before, List.append_assoc], by simp [mem]⟩

end Outcomes

/-- A reply to an `order` request goes to `on_send_order`. -/
theorem onPacket_reply (r : Reply) :
    (onPacket r.packet).exec s = (onSendOrder r.packet).exec s := by
  have name : callbackName r.packet = textAt r.packet "op" := by
    simp [callbackName, Json.Value.contains, r.event, r.op]
  rw [onPacket, name]
  exact exec_textAt_bind r.op

theorem Reply.not_null (r : Reply) : r.packet.isNull = false :=
  Json.Value.isNull_of_get? r.op

/-- An accepted request: the outcomes are applied one after another. -/
theorem onText_accepted (r : Reply) (accepted : r.code = "0") (s : OkxExchange) :
    s.onText r.packet = r.outcomes.foldl applyOutcome s := by
  obtain ⟨ds, data, encoded⟩ := r.data accepted
  have handled : (onSendOrder r.packet).exec s = (.ok (), r.outcomes.foldl applyOutcome s) := by
    unfold onSendOrder Exchange.read
    rw [Json.Value.get_of_get? data, Fault.ofJson_ok, exec_lift_ok_bind,
      Json.Value.get_of_get? r.code_eq, Fault.ofJson_ok, exec_lift_ok_bind]
    rw [if_pos (by simp [Json.Value.isString, accepted])]
    exact onResults_exec encoded s
  exact onText_ok r.not_null (by rw [onPacket_reply, handled])

/-- A refused request: nothing maps its id to the order, and no entry changes. -/
theorem orders_onText_refused (r : Reply) (refused : r.code ≠ "0") (books : Books s) :
    (s.onText r.packet).orders = s.orders := by
  let P (t : OkxExchange) : Prop := t.orders = s.orders ∧ t.reqidOrderMap = ∅
  have keeps : Preserves P (onSendOrder r.packet) := by
    refine preserves_read_bind fun data _ => preserves_read_bind fun code eq => ?_
    rw [Json.Value.get_of_get? r.code_eq] at eq
    obtain rfl := Except.ok.inj eq
    rw [if_neg (by simp [Json.Value.isString, refused])]
    refine .bind (readOnly_read _ _) fun msg => .bind (readOnly_read _ _) fun code => ?_
    refine .bind (.modify fun t same => same) fun _ => .ite (.pure _) ?_
    refine .bind (readOnly_read _ _) fun id => .get_bind fun t same => ?_
    rw [same.2]
    simpa [Handler.state] using same
  have handled : Preserves P (onPacket r.packet) := by
    intro t start
    unfold Handler.state
    rw [onPacket_reply]
    exact keeps t start
  have after : P (s.onText r.packet) :=
    onText_invariant handled (fun _ _ same => same) ⟨rfl, books.unmapped⟩
  exact after.1

/-! ## Rejections -/

/-- After the reply the order is rejected and announced so, unless it had ended before, and all
other entries are as they were. -/
structure Rejects (s t : OkxExchange) (orderid : AString) : Prop where
  order : ∃ o, s.orders[orderid]? = some o ∧
    (o.isActive = true → t.orders[orderid]? = some (rejected o) ∧ Tells s t (rejected o))
  others : ∀ other, other ≠ orderid → t.orders[other]? = s.orders[other]?

/-- The failures that the code handles: the request was accepted, or the order has ended already,
and what the reply says about other orders is known. -/
structure Handled (s : OkxExchange) (r : Reply) (orderid : AString) : Prop where
  order : r.code = "0" ∨ ∀ o, s.orders[orderid]? = some o → o.isActive = false
  others : r.code = "0" → ∀ other, other ≠ orderid → (∃ outcome ∈ r.outcomes, outcome.Fails other) →
    ∀ o, s.orders[other]? = some o → o.status = .rejected

theorem rejected_eq_self {o : OrderData} : rejected o = o ↔ o.status = .rejected := by
  cases o
  simp [rejected, eq_comm]

theorem accepted_rejects_iff (books : Books s) (r : Reply) (accepted : r.code = "0") {o : OrderData}
    (found : s.orders[orderid]? = some o) (fails : ∃ outcome ∈ r.outcomes, outcome.Fails orderid) :
    Rejects s (s.onText r.packet) orderid ↔ Handled s r orderid := by
  have entry (id : AString) := getElem?_foldl_applyOutcome books r.outcomes id
  rw [onText_accepted r accepted s]
  constructor
  · rintro ⟨-, others⟩
    refine ⟨.inl accepted, fun _ other ne fails p at_other => ?_⟩
    have same := others other ne
    rw [entry, if_pos fails, at_other, Option.map_some, Option.some_inj] at same
    exact rejected_eq_self.mp same
  · rintro ⟨-, others⟩
    refine ⟨⟨o, found, fun _ => ⟨?_, tells_foldl_applyOutcome books fails found⟩⟩, ?_⟩
    · rw [entry, if_pos fails, found, Option.map_some]
    · intro other ne
      rw [entry]
      split
      · rename_i fails
        cases at_other : s.orders[other]? with
        | none => rfl
        | some p =>
          rw [Option.map_some, rejected_eq_self.mpr (others accepted other ne fails p at_other)]
      · rfl

theorem refused_rejects_iff (books : Books s) (r : Reply) (refused : r.code ≠ "0") {o : OrderData}
    (found : s.orders[orderid]? = some o) :
    Rejects s (s.onText r.packet) orderid ↔ Handled s r orderid := by
  have same := orders_onText_refused r refused books
  constructor
  · rintro ⟨⟨o', found', active⟩, -⟩
    obtain rfl := Option.some.inj (found.symm.trans found')
    refine ⟨.inr fun p at_id => ?_, fun eq => absurd eq refused⟩
    obtain rfl := Option.some.inj (found.symm.trans at_id)
    by_contra alive
    have alive : o.isActive = true := by simpa using alive
    have after := (active alive).1
    rw [same, found, Option.some_inj] at after
    rw [after] at alive
    simp at alive
  · rintro ⟨order, -⟩
    have ended := order.resolve_left refused o found
    refine ⟨⟨o, found, fun active => ?_⟩, fun other _ => by rw [same]⟩
    rw [ended] at active
    exact absurd active (by simp)

/-- A reported failure rejects the order, and no other one, exactly if the code handles it. -/
theorem reply_rejects_iff (connectTime : ℕ) (steps : List Step) (r : Reply) (orderid : AString)
    (sent : (run connectTime steps).Sent r.id orderid) (failed : r.Reports orderid) :
    Rejects (run connectTime steps) ((run connectTime steps).onText r.packet) orderid ↔
      Handled (run connectTime steps) r orderid := by
  have books := books_run connectTime steps
  have stored := books.stored r.id orderid sent
  rw [ExtTreeMap.mem_iff_isSome_getElem?] at stored
  obtain ⟨o, found⟩ := Option.isSome_iff_exists.mp stored
  by_cases accepted : r.code = "0"
  · exact accepted_rejects_iff books r accepted found (failed.resolve_left (not_not.mpr accepted))
  · exact refused_rejects_iff books r accepted found

section OneOrder

def rejection : Outcome :=
  { clOrdId := "7000001", sCode := "51008", sMsg := "Insufficient balance" }

def rejectionJson : Json.Value :=
  .object [("clOrdId", .string "7000001"), ("sCode", .string "51008"),
    ("sMsg", .string "Insufficient balance")]

/-- A reply to the first request, with the code `code`, that reports the order's failure. -/
def replyWith (code : AString) : Reply where
  packet := .object [("code", .string code), ("data", .array [rejectionJson]), ("id", .string "1"),
    ("msg", .string "All operations failed"), ("op", .string "order")]
  id := "1"
  code := code
  outcomes := [rejection]
  event := rfl
  op := rfl
  id_eq := rfl
  code_eq := rfl
  data _ := ⟨_, rfl, .cons ⟨rfl, rfl, rfl⟩ .nil⟩

theorem rejection_in_reply (code : AString) : (replyWith code).Reports "7000001" :=
  .inr ⟨rejection, List.mem_singleton_self _, rfl, by decide⟩

/-- The rejected order of an accepted request. -/
theorem rejection_rejects :
    Rejects (run 7 sendsOne) ((run 7 sendsOne).onText (replyWith "0").packet) "7000001" := by
  refine (reply_rejects_iff 7 sendsOne (replyWith "0") "7000001" sent_sendsOne
    (rejection_in_reply "0")).mpr ⟨.inl rfl, ?_⟩
  rintro - other ne ⟨outcome, mem, fails, -⟩
  obtain rfl := List.mem_singleton.mp mem
  exact absurd fails.symm ne

/-- The request was refused, and its order is as active as before. -/
theorem refusal_ignored :
    ¬ ∀ (connectTime : ℕ) (steps : List Step) (r : Reply) (orderid : AString),
      (run connectTime steps).Sent r.id orderid → r.Reports orderid →
        Rejects (run connectTime steps) ((run connectTime steps).onText r.packet) orderid := by
  intro all
  obtain ⟨⟨o, found, active⟩, -⟩ :=
    all 7 sendsOne (replyWith "1") "7000001" sent_sendsOne (rejection_in_reply "1")
  have alive : (run 7 sendsOne).orders["7000001"]?.any OrderData.isActive = true := by
    decide +kernel
  rw [found, Option.any_some] at alive
  have after := (active alive).1
  rw [orders_onText_refused (replyWith "1") (by decide) (books_run 7 sendsOne), found,
    Option.some_inj] at after
  rw [after] at alive
  simp at alive

end OneOrder

end KeenTrader.Exchange.OkxExchange
