import KeenTrader.Library.Numbering
import KeenTrader.Engine.Precision
import KeenTrader.Exchange.OkxChannel
import KeenTrader.Exchange.Replies

/-!
# Client order ids

`send_order` makes the id of an order of what tells the sessions apart, the connect time on OKX and
a prefix on Binance, and of a count. OKX pads the count to six digits, but writes more where it
needs them. The counts of a session follow each other, so its ids differ; the ids of two sessions
differ if the connect times or the prefixes do and are equally long. No width of the count is
assumed: the `int` of the source holds counts of up to ten digits.
-/

namespace KeenTrader.Exchange

open KeenTrader.Engine Handlers Numbering

/-- What a call of `send_order` makes an order id of, and the id. -/
structure Allocation (Session : Type) where
  session : Session
  count : ℕ
  orderid : AString
  deriving DecidableEq

namespace OkxExchange

variable {s : OkxExchange}

/-- The connect time, and the count in six digits or more. -/
def orderIds : Scheme ℕ where
  heading := toString
  number count := rjust (toString count) 6 '0'
  heading_injective := fun _ _ same => Nat.repr_injective same
  number_injective := rjust_toString_injective 6

/-- The id that a call of `send_order` makes, if it counts an order. -/
def allocation (s : OkxExchange) (req : OrderRequest) : Option (Allocation ℕ) :=
  let after := (s.sendOrder req).2
  if s.orderCount < after.orderCount then
    some { session := after.connectTime, count := after.orderCount, orderid := s.newOrderid }
  else none

/-- The id that a step makes. -/
def allocated (s : OkxExchange) : Step → Option (Allocation ℕ)
  | .sendOrder req => s.allocation req
  | _ => none

theorem sendOrder_counts (s : OkxExchange) (req : OrderRequest) :
    (s.sendOrder req).2.connectTime = s.connectTime ∧
      ((s.sendOrder req).2.orderCount = s.orderCount ∨
        (s.sendOrder req).2.orderCount = s.orderCount + 1) := by
  rcases s.sendOrder_cases req with ⟨orderCount, msg, counted, eq⟩ | ⟨args, msg, msg', -, eq⟩
  · rw [eq]
    exact ⟨rfl, counted⟩
  · rw [eq]
    exact ⟨rfl, .inr rfl⟩

/-- A call counts an order and makes an id of the next count, or it does neither. -/
theorem allocation_cases (s : OkxExchange) (req : OrderRequest) :
    (s.allocation req = none ∧ (s.sendOrder req).2.orderCount = s.orderCount) ∨
    s.allocation req =
        some { session := s.connectTime, count := s.orderCount + 1, orderid := s.newOrderid } ∧
      (s.sendOrder req).2.orderCount = s.orderCount + 1 := by
  obtain ⟨connectTime, same | next⟩ := s.sendOrder_counts req
  · exact .inl ⟨by simp [allocation, same], same⟩
  · exact .inr ⟨by simp [allocation, next, connectTime], next⟩

theorem written_allocation {req : OrderRequest} {a : Allocation ℕ}
    (made : s.allocation req = some a) :
    a.session = s.connectTime ∧ a.orderid = orderIds.text a.session a.count := by
  rcases s.allocation_cases req with ⟨none, -⟩ | ⟨some, -⟩
  · rw [none] at made
    cases made
  · obtain rfl := Option.some.inj (some.symm.trans made)
    exact ⟨rfl, rfl⟩

/-- An order request that goes out carries the id that has been made for it. -/
theorem sent_allocation {req : OrderRequest} (key : (s.sendOrder req).1 ≠ "") :
    ∃ a, s.allocation req = some a ∧
      (s.sendOrder req).2.Sent (toString (s.reqid + 1)) a.orderid := by
  rcases s.allocation_cases req with ⟨-, same⟩ | ⟨made, -⟩
  · rcases s.sendOrder_cases req with ⟨orderCount, msg, -, eq⟩ | ⟨args, msg, msg', -, eq⟩
    · exact absurd (congrArg Prod.fst eq) key
    · rw [eq] at same
      exact absurd same (Nat.succ_ne_self _)
  · exact ⟨_, made, sent_of_sendOrder key⟩

/-! ## Sessions -/

/-- The handlers touch neither the connect time nor the count. -/
theorem kept_counters (connectTime orderCount : ℕ) :
    KeptByHandlers fun t => t.connectTime = connectTime ∧ t.orderCount = orderCount where
  emit _ same := same
  order _ same := same
  parse {s} data same := by
    unfold noteLocal
    split <;> exact same
  forget _ same := same

theorem step_counters (l : Step) (other : ∀ req, l ≠ .sendOrder req) :
    (s.step l).connectTime = s.connectTime ∧ (s.step l).orderCount = s.orderCount := by
  have kept := kept_counters s.connectTime s.orderCount
  cases l with
  | contract contract => exact ⟨rfl, rfl⟩
  | positionMode mode => exact ⟨rfl, rfl⟩
  | sendOrder req => exact absurd rfl (other req)
  | cancelOrder req =>
    rw [step, cancelOrder]
    split <;> exact ⟨rfl, rfl⟩
  | text packet => exact kept.onText packet ⟨rfl, rfl⟩
  | queryOrder packet => exact kept.queryOrder packet ⟨rfl, rfl⟩

theorem counts : Counts step allocated (·.orderCount) Allocation.count := by
  intro s l
  cases l with
  | sendOrder req =>
    rcases s.allocation_cases req with idle | ⟨made, next⟩
    · exact .inl idle
    · exact .inr ⟨_, made, rfl, next⟩
  | _ => exact .inl ⟨rfl, (step_counters _ (by simp)).2⟩

/-- The ids that are made in a session, the first one first. -/
def allocations (connectTime : ℕ) (steps : List Step) : List (Allocation ℕ) :=
  taken step allocated { connectTime } steps

theorem written_allocations (connectTime : ℕ) (steps : List Step) :
    ∀ a ∈ allocations connectTime steps,
      a.session = connectTime ∧ a.orderid = orderIds.text a.session a.count := by
  refine forall_taken (P := (OkxExchange.connectTime · = connectTime)) (fun s l _ same => ?_)
    (fun s l _ same a made => ?_) rfl
  · rw [← same]
    cases l with
    | sendOrder req => exact (s.sendOrder_counts req).1
    | _ => exact (step_counters _ (by simp)).1
  · cases l with
    | sendOrder req =>
      obtain ⟨session, written⟩ := written_allocation made
      exact ⟨session.trans same, written⟩
    | _ => cases made

/-- All ids of all sessions differ, if the sessions have different connect times of equally many
digits. -/
theorem orderids_nodup {sessions : List (ℕ × List Step)}
    (digits : ∀ x ∈ sessions, ∀ y ∈ sessions, (toString x.1).length = (toString y.1).length)
    (apart : (sessions.map Prod.fst).Nodup) :
    ((sessions.flatMap fun x => allocations x.1 x.2).map Allocation.orderid).Nodup := by
  refine orderIds.nodup_texts (fun x _ a mem => (written_allocations _ _ a mem).2)
    (fun x of_x a in_x y of_y b in_y => ?_) (fun x _ => counts.pairwise _ x.2)
    ((List.pairwise_map.mp apart).imp fun {x y} other a in_x b in_y => ?_)
  · rw [(written_allocations _ _ a in_x).1, (written_allocations _ _ b in_y).1]
    exact digits x of_x y of_y
  · rw [(written_allocations _ _ a in_x).1, (written_allocations _ _ b in_y).1]
    exact other

end OkxExchange

namespace BinanceExchange

open Binance

variable {hmac : AString → AString → List UInt8} {s : BinanceExchange}

/-- The prefix, and the count as it is. -/
def orderIds : Scheme AString where
  heading := id
  number := toString
  heading_injective := Function.injective_id
  number_injective := fun _ _ same => Nat.repr_injective same

/-- The id that a call of `send_order` makes, if it counts an order. -/
def allocation (hmac : AString → AString → List UInt8) (s : BinanceExchange) (req : OrderRequest)
    (moment : Moment) : Option (Allocation AString) :=
  let after := (s.sendOrder hmac req moment).2
  if s.orderCount < after.orderCount then
    some
      { session := after.orderPrefix, count := after.orderCount, orderid := s.newOrderid moment }
  else none

/-- The id that a step makes. -/
def allocated (hmac : AString → AString → List UInt8) (s : BinanceExchange) :
    Step → Option (Allocation AString)
  | .sendOrder req moment => s.allocation hmac req moment
  | _ => none

theorem sendOrder_counts (hmac : AString → AString → List UInt8) (s : BinanceExchange)
    (req : OrderRequest) (moment : Moment) :
    ((s.sendOrder hmac req moment).1 = "" ∧
      (s.sendOrder hmac req moment).2.orderPrefix = s.orderPrefix ∧
      (s.sendOrder hmac req moment).2.orderCount = s.orderCount) ∨
    (s.sendOrder hmac req moment).2.orderPrefix = s.prefixAt moment ∧
      (s.sendOrder hmac req moment).2.orderCount = s.orderCount + 1 ∧
      .order (req.createOrderData (s.newOrderid moment) exchangeName) ∈
        (s.sendOrder hmac req moment).2.trace := by
  unfold sendOrder
  split
  · exact .inl ⟨rfl, rfl, rfl⟩
  · exact .inr ⟨rfl, rfl, by simp [sendPacket, register, onOrder, emit]⟩

/-- A call counts an order and makes an id of the prefix and the next count, or it does neither. -/
theorem allocation_cases (hmac : AString → AString → List UInt8) (s : BinanceExchange)
    (req : OrderRequest) (moment : Moment) :
    (s.allocation hmac req moment = none ∧
      (s.sendOrder hmac req moment).2.orderCount = s.orderCount) ∨
    s.allocation hmac req moment =
        some { session := s.prefixAt moment, count := s.orderCount + 1,
               orderid := s.newOrderid moment } ∧
      (s.sendOrder hmac req moment).2.orderCount = s.orderCount + 1 := by
  rcases s.sendOrder_counts hmac req moment with ⟨-, -, same⟩ | ⟨first, next, -⟩
  · exact .inl ⟨by simp [allocation, same], same⟩
  · exact .inr ⟨by simp [allocation, next, first], next⟩

theorem written_allocation {req : OrderRequest} {moment : Moment} {a : Allocation AString}
    (made : s.allocation hmac req moment = some a) :
    a.session = s.prefixAt moment ∧ a.orderid = orderIds.text a.session a.count := by
  rcases s.allocation_cases hmac req moment with ⟨none, -⟩ | ⟨some, -⟩
  · rw [none] at made
    cases made
  · obtain rfl := Option.some.inj (some.symm.trans made)
    exact ⟨rfl, rfl⟩

/-- An order that is sent is announced under the id that has been made for it. -/
theorem told_allocation {req : OrderRequest} {moment : Moment}
    (key : (s.sendOrder hmac req moment).1 ≠ "") :
    ∃ a, s.allocation hmac req moment = some a ∧
      .order (req.createOrderData a.orderid exchangeName) ∈
        (s.sendOrder hmac req moment).2.trace := by
  rcases s.sendOrder_counts hmac req moment with ⟨empty, -⟩ | ⟨-, next, announced⟩
  · exact absurd empty key
  · rcases s.allocation_cases hmac req moment with ⟨-, same⟩ | ⟨made, -⟩
    · exact absurd (next.symm.trans same) (Nat.succ_ne_self _)
    · exact ⟨_, made, announced⟩

/-! ## Sessions -/

theorem step_counters (l : Step) (other : ∀ req moment, l ≠ .sendOrder req moment) :
    (s.step hmac l).orderPrefix = s.orderPrefix ∧ (s.step hmac l).orderCount = s.orderCount := by
  cases l with
  | contract contract => exact ⟨rfl, rfl⟩
  | sendOrder req moment => exact absurd rfl (other req moment)
  | cancelOrder req moment =>
    rw [step, cancelOrder]
    split <;> exact ⟨rfl, rfl⟩
  | text packet =>
    exact onText_keeps (P := fun t => t.orderPrefix = s.orderPrefix ∧ t.orderCount = s.orderCount)
      (fun _ _ same => same) (fun _ _ same => same) ⟨rfl, rfl⟩ packet

theorem counts : Counts (step hmac) (allocated hmac) (·.orderCount) Allocation.count := by
  intro s l
  cases l with
  | sendOrder req moment =>
    rcases s.allocation_cases hmac req moment with idle | ⟨made, next⟩
    · exact .inl idle
    · exact .inr ⟨_, made, rfl, next⟩
  | _ => exact .inl ⟨rfl, (step_counters _ (by simp)).2⟩

section Sessions
variable (hmac : AString → AString → List UInt8) (key secret : AString) (hedgeMode : Bool)

/-- The ids that are made in a session, the first one first. -/
def allocations (steps : List Step) : List (Allocation AString) :=
  taken (step hmac) (allocated hmac) (connected key secret hedgeMode) steps

/-- The orders are sent at moments that are written with `width` digits. -/
def Dated (width : ℕ) (steps : List Step) : Prop :=
  ∀ req moment, .sendOrder req moment ∈ steps → moment.digits.length = width

variable {hmac key secret hedgeMode} {width : ℕ}

theorem written_allocations {steps : List Step} (dated : Dated width steps) :
    ∀ a ∈ allocations hmac key secret hedgeMode steps,
      a.session.length = width ∧ a.orderid = orderIds.text a.session a.count := by
  have wide {s : BinanceExchange} (start : s.orderPrefix = "" ∨ s.orderPrefix.length = width)
      {moment : Moment} (digits : moment.digits.length = width) :
      (s.prefixAt moment).length = width := by
    unfold prefixAt
    split
    · exact digits
    · rename_i nonempty
      exact start.resolve_left fun empty => nonempty (by simp [empty])
  refine forall_taken (P := fun s => s.orderPrefix = "" ∨ s.orderPrefix.length = width)
    (fun s l mem start => ?_) (fun s l mem start a made => ?_) (.inl rfl)
  · cases l with
    | sendOrder req moment =>
      rcases s.sendOrder_counts hmac req moment with ⟨-, same, -⟩ | ⟨first, -, -⟩
      · rwa [step, same]
      · rw [step, first]
        exact .inr (wide start (dated req moment mem))
    | _ => rwa [(step_counters _ (by simp)).1]
  · cases l with
    | sendOrder req moment =>
      obtain ⟨session, written⟩ := written_allocation made
      rw [session] at written ⊢
      exact ⟨wide start (dated req moment mem), written⟩
    | _ => cases made

/-- All ids of all sessions differ, if the sessions have different prefixes of one width. -/
theorem orderids_nodup {sessions : List (List Step)} (dated : ∀ x ∈ sessions, Dated width x)
    (apart : sessions.Pairwise fun x y => ∀ a ∈ allocations hmac key secret hedgeMode x,
      ∀ b ∈ allocations hmac key secret hedgeMode y, a.session ≠ b.session) :
    ((sessions.flatMap (allocations hmac key secret hedgeMode)).map Allocation.orderid).Nodup := by
  have written : ∀ x ∈ sessions, ∀ a ∈ allocations hmac key secret hedgeMode x,
      a.session.length = width ∧ a.orderid = orderIds.text a.session a.count := fun x mem =>
    written_allocations (dated x mem)
  refine orderIds.nodup_texts (fun x of_x a in_x => (written x of_x a in_x).2)
    (fun x of_x a in_x y of_y b in_y => ?_) (fun x _ => counts.pairwise _ x) apart
  exact (written x of_x a in_x).1.trans (written y of_y b in_y).1.symm

end Sessions

end BinanceExchange

/-! ## Two calls -/

/-- Two calls of `send_order` that make ids, in whatever sessions and states: if the connect times
have equally many digits and the connect times or the counts differ, so do the ids, and on Binance
likewise if the prefixes are equally long. -/
theorem orderids_differ :
    (∀ (s t : OkxExchange) (req req' : OrderRequest) (a b : Allocation ℕ),
      s.allocation req = some a → t.allocation req' = some b →
      (toString a.session).length = (toString b.session).length →
      (a.session, a.count) ≠ (b.session, b.count) → a.orderid ≠ b.orderid) ∧
    ∀ (hmac hmac' : AString → AString → List UInt8) (s t : BinanceExchange)
      (req req' : OrderRequest) (moment moment' : Binance.Moment) (a b : Allocation AString),
      s.allocation hmac req moment = some a → t.allocation hmac' req' moment' = some b →
      a.session.length = b.session.length →
      (a.session, a.count) ≠ (b.session, b.count) → a.orderid ≠ b.orderid := by
  constructor
  · intro s t req req' a b made made' digits differ same
    rw [(OkxExchange.written_allocation made).2, (OkxExchange.written_allocation made').2,
      OkxExchange.orderIds.text_inj digits] at same
    exact differ (Prod.ext same.1 same.2)
  · intro hmac hmac' s t req req' moment moment' a b made made' width differ same
    rw [(BinanceExchange.written_allocation made).2, (BinanceExchange.written_allocation made').2,
      BinanceExchange.orderIds.text_inj width] at same
    exact differ (Prod.ext same.1 same.2)

/-- With connect times of different lengths one text can be two ids. -/
example : OkxExchange.orderIds.text 1700000000 1000001 = OkxExchange.orderIds.text 17000000001 1 := by
  decide

section FixedCalls

/-- An OKX session that knows a contract and has counted some orders. -/
def okxAt (connectTime orderCount : ℕ) : OkxExchange :=
  { OkxExchange.run connectTime [.contract OkxExchange.btcUsdt] with orderCount }

/-- The same on Binance. -/
def binanceAt (orderPrefix : AString) (orderCount : ℕ) : BinanceExchange :=
  { BinanceExchange.run (fun _ _ => []) "" "" false [.contract BinanceExchange.btcUsdt] with
    orderPrefix, orderCount }

/-- The id behind 999999 others has a digit more, and is not the first one of the next session; nor
do the ids of a Binance session agree when its count gets a digit more. -/
theorem seventh_digit_differs :
    (∃ a b, (okxAt 1700000000 999999).allocation OkxExchange.buyBtc = some a ∧
      (okxAt 1700000001 0).allocation OkxExchange.buyBtc = some b ∧
      a.orderid = "17000000001000000" ∧ b.orderid = "1700000001000001" ∧ a.orderid ≠ b.orderid) ∧
    ∃ a b, (binanceAt "" 0).allocation (fun _ _ => []) BinanceExchange.buyBtc
        ⟨"231114221320", 1700000000⟩ = some a ∧
      (binanceAt "231114221320" 10).allocation (fun _ _ => []) BinanceExchange.buyBtc
        ⟨"231114221321", 1700000001⟩ = some b ∧
      a.orderid = "2311142213201" ∧ b.orderid = "23111422132011" ∧ a.orderid ≠ b.orderid := by
  constructor
  · have made : (okxAt 1700000000 999999).allocation OkxExchange.buyBtc =
        some ⟨1700000000, 1000000, "17000000001000000"⟩ := by decide +kernel
    have made' : (okxAt 1700000001 0).allocation OkxExchange.buyBtc =
        some ⟨1700000001, 1, "1700000001000001"⟩ := by decide +kernel
    exact ⟨_, _, made, made', rfl, rfl,
      orderids_differ.1 _ _ _ _ _ _ made made' (by decide) (by decide)⟩
  · have made : (binanceAt "" 0).allocation (fun _ _ => []) BinanceExchange.buyBtc
        ⟨"231114221320", 1700000000⟩ = some ⟨"231114221320", 1, "2311142213201"⟩ := by
      decide +kernel
    have made' : (binanceAt "231114221320" 10).allocation (fun _ _ => []) BinanceExchange.buyBtc
        ⟨"231114221321", 1700000001⟩ = some ⟨"231114221320", 11, "23111422132011"⟩ := by
      decide +kernel
    exact ⟨_, _, made, made', rfl, rfl,
      orderids_differ.2 _ _ _ _ _ _ _ _ _ _ made made' (by decide) (by decide)⟩

end FixedCalls

end KeenTrader.Exchange
