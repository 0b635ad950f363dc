import KeenTrader.Exchange.OkxChannel

/-!
# Cancelled orders on OKX

A cancel request names its order by `clOrdId` if the id has been noted as local. The parser notes
the ids that incoming data carry; `send_order` does not note the ids that it makes.
-/

namespace KeenTrader.Exchange.OkxExchange

open Std (ExtTreeSet)
open KeenTrader.Engine Runs Okx

variable {s : OkxExchange}

/-- `parse_order_data` has been given an order under the id that its client chose. -/
def Announced (s : OkxExchange) (orderid : AString) : Prop :=
  ∃ data, .parse data ∈ s.trace ∧ announced data = some orderid

/-- The ids that are noted as local are those that have been announced. -/
def Learnt (s : OkxExchange) : Prop := ∀ id, id ∈ s.localOrderids ↔ s.Announced id

theorem announced_emit {e : Effect} (other : ∀ data, e ≠ .parse data) (id : AString) :
    (s.emit e).Announced id ↔ s.Announced id := by
  constructor
  · rintro ⟨data, mem, eq⟩
    rcases List.mem_append.mp mem with mem | mem
    · exact ⟨data, mem, eq⟩
    · exact absurd (List.mem_singleton.mp mem).symm (other data)
  · rintro ⟨data, mem, eq⟩
    exact ⟨data, List.mem_append_left _ mem, eq⟩

theorem announced_parse (data : Json.Value) (id : AString) :
    (s.emit (.parse data)).Announced id ↔ s.Announced id ∨ announced data = some id := by
  simp only [Announced, emit_trace, List.mem_append, List.mem_singleton, Effect.parse.injEq]
  constructor
  · rintro ⟨d, mem | rfl, eq⟩
    · exact .inl ⟨d, mem, eq⟩
    · exact .inr eq
  · rintro (⟨d, mem, eq⟩ | eq)
    · exact ⟨d, .inl mem, eq⟩
    · exact ⟨data, .inr rfl, eq⟩

theorem Learnt.emit (learnt : Learnt s) {e : Effect} (other : ∀ data, e ≠ .parse data) :
    Learnt (s.emit e) := fun id => (learnt id).trans (announced_emit other id).symm

/-- The invariant of the local ids. -/
theorem kept_learnt : Kept Learnt where
  emit quiet learnt := learnt.emit (by rintro data rfl; exact quiet)
  order {s} o learnt := Learnt.emit (s := { s with orders := s.orders.insert o.orderid o }) learnt
    (by simp)
  parse {s} data learnt := by
    intro id
    cases noted : announced data with
    | none =>
      have same := announced_parse (s := s) data id
      rw [noted] at same
      exact (learnt id).trans (same.trans (by simp)).symm
    | some own =>
      have same := announced_parse (s := s) data id
      rw [noted, Option.some_inj] at same
      rw [← learnt id] at same
      refine Iff.trans ?_ same.symm
      simp [noteLocal, OkxExchange.emit, ExtTreeSet.mem_insert, or_comm]
  forget _ learnt := learnt
  ignore _ _ _ _ _ learnt := learnt
  place {s id args o} _ learnt := by
    have sent : Learnt (s.emit (.packet (request id "order" args))) := learnt.emit (by simp)
    exact Learnt.emit (s := { s.emit (.packet (request id "order" args)) with
      orders := s.orders.insert o.orderid o }) sent (by simp)

/-! ## Cancel requests -/

variable {req : CancelRequest} {contract : ContractData}

theorem get?_cancelArgs (s : OkxExchange) (req : CancelRequest) (contract : ContractData) :
    (s.cancelArgs req contract).get? "clOrdId" =
      if req.orderid ∈ s.localOrderids then some (.string req.orderid) else none := by
  unfold cancelArgs instrument
  split <;> split <;> simp [Json.Value.get?, List.lookup]

theorem trace_cancelOrder (known : s.getContractBySymbol req.symbol = some contract) :
    (s.cancelOrder req).trace = s.trace ++
      [.packet (request (toString (s.reqid + 1)) "cancel-order" (s.cancelArgs req contract))] := by
  unfold cancelOrder
  rw [known]
  rfl

/-- A step that cancels an order of this process sends a packet that names it by `clOrdId`. -/
def NamesOwn (s : OkxExchange) : Step → Prop
  | .cancelOrder req => (∃ id, s.Sent id req.orderid) → ∀ id args,
      (s.cancelOrder req).trace = s.trace ++ [.packet (request id "cancel-order" args)] →
        args.get? "clOrdId" = some (.string req.orderid)
  | _ => True

/-- A step that cancels an order of this process comes after data that announced its id. -/
def AnnouncedFirst (s : OkxExchange) : Step → Prop
  | .cancelOrder req => (∃ id, s.Sent id req.orderid) →
      (s.getContractBySymbol req.symbol).isSome → s.Announced req.orderid
  | _ => True

theorem namesOwn_iff (learnt : Learnt s) (l : Step) : NamesOwn s l ↔ AnnouncedFirst s l := by
  cases l with
  | cancelOrder req =>
    refine forall_congr' fun own => ?_
    rw [← learnt req.orderid]
    cases known : s.getContractBySymbol req.symbol with
    | none => simp [OkxExchange.cancelOrder, known, writeLog]
    | some contract =>
      rw [trace_cancelOrder known]
      constructor
      · intro named _
        have at_key := named _ _ rfl
        rw [get?_cancelArgs] at at_key
        by_contra other
        simp [other] at at_key
      · intro own id args eq
        have same := Effect.packet.inj (List.singleton_inj.mp (List.append_cancel_left eq))
        rw [← (request_inj.mp same).2.2, get?_cancelArgs, if_pos (own rfl)]
  | _ => exact Iff.rfl

/-- Every cancel packet for an own order names it by `clOrdId` exactly in those runs that cancel
an own order only after its id has been announced. -/
theorem cancels_named_iff (connectTime : ℕ) (steps : List Step) :
    Meets step NamesOwn { connectTime } steps ↔ Meets step AnnouncedFirst { connectTime } steps :=
  meets_congr (P := Learnt) (fun _ l learnt => kept_learnt.step l learnt)
    (fun _ l learnt => namesOwn_iff learnt l) (by simp [Learnt, Announced])

/-- The order is cancelled before anything has been heard of it. -/
theorem cancelledFirst_not_named :
    ¬ ∀ (connectTime : ℕ) (steps : List Step), Meets step NamesOwn { connectTime } steps := by
  intro all
  have met := all 7 (sendsOne ++
    [.cancelOrder { orderid := "7000001", symbol := "BTC-USDT", exchange := .okx }])
  have named : NamesOwn (run 7 sendsOne)
      (.cancelOrder { orderid := "7000001", symbol := "BTC-USDT", exchange := .okx }) :=
    (meets_append.mp met).2.1
  have unknown : "7000001" ∉ (run 7 sendsOne).localOrderids := by decide +kernel
  have known : (run 7 sendsOne).getContractBySymbol "BTC-USDT" = some btcUsdt := by decide +kernel
  have at_key := named ⟨"1", sent_sendsOne⟩ _ _ (trace_cancelOrder known)
  rw [get?_cancelArgs, if_neg unknown] at at_key
  simp at at_key

end KeenTrader.Exchange.OkxExchange
