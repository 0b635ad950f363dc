import KeenTrader.Engine.Soundness

/-!
# The two deliveries of one fill

A fill of a closing order is reported twice, by an order update and by a trade, and either
may be handled first. `updateOrder` recomputes the frozen amounts from the active orders,
`updateTrade` only clamps them to what is left. The two ways are compared through the running
sums that `freezeLeg` builds: with a lower cap on today's volume the part frozen today is the
same after clamping, while the part spilled into yesterday's volume grows as soon as some
`CLOSE` order reaches beyond the lower cap.
-/

namespace KeenTrader.Engine

open Std (ExtTreeMap)
open Containers

namespace PositionHolding

section Freezing
variable (side : Side)

/-- What an active order freezes on the leg it closes. -/
def closingDemand (o : OrderData) : ℚ :=
  if o.direction = side.closer ∧ o.offset.isClosing then o.remaining else 0

/-- Adding up, in the order of the list, what the orders that may close today's volume ask
of it, no `CLOSE` order reaches beyond `td`. -/
def WithinToday (td : ℚ) : ℚ → List OrderData → Prop
  | _, [] => True
  | sum, o :: os =>
    if o.direction = side.closer then
      match o.offset with
      | .closeToday => WithinToday td (sum + o.remaining) os
      | .close => sum + o.remaining ≤ td ∧ WithinToday td (sum + o.remaining) os
      | .none | .opening | .closeYesterday => WithinToday td sum os
    else WithinToday td sum os

variable {side}

theorem freezeLeg_tdFrozen (l : Leg) (o : OrderData) :
    (freezeLeg side l o).tdFrozen =
      if o.direction = side.closer then
        match o.offset with
        | .closeToday => l.tdFrozen + o.remaining
        | .close => min (l.tdFrozen + o.remaining) l.td
        | .none | .opening | .closeYesterday => l.tdFrozen
      else l.tdFrozen := by
  unfold freezeLeg Leg.freeze
  split
  · cases o.offset <;> simp only
    split <;> rename_i exceeds
    · simp [min_eq_right exceeds.le]
    · simp [min_eq_left (not_lt.mp exceeds)]
  · rfl

theorem freezeLeg_td (l : Leg) (o : OrderData) : (freezeLeg side l o).td = l.td :=
  (freezeLeg_held side [o] l).2.1

/-- Nothing that an order freezes is lost: what does not fit today is frozen yesterday. -/
theorem freezeLeg_sum (l : Leg) (o : OrderData) :
    (freezeLeg side l o).tdFrozen + (freezeLeg side l o).ydFrozen =
      l.tdFrozen + l.ydFrozen + closingDemand side o := by
  unfold freezeLeg closingDemand
  by_cases closer : o.direction = side.closer
  · cases off : o.offset <;> simp only [closer, Leg.freeze, Offset.isClosing, if_true, true_and]
    case none => simp
    case opening => simp
    case close => split <;> simp <;> ring
    case closeToday => ring
    case closeYesterday => ring
  · simp [closer]

variable (side) in
theorem foldl_freezeLeg_sum (os : List OrderData) (l : Leg) :
    (os.foldl (freezeLeg side) l).tdFrozen + (os.foldl (freezeLeg side) l).ydFrozen =
      l.tdFrozen + l.ydFrozen + (os.map (closingDemand side)).sum := by
  induction os generalizing l with
  | nil => simp
  | cons o os ih =>
    rw [List.foldl_cons, ih, freezeLeg_sum, List.map_cons, List.sum_cons]
    ring

variable (side) in
/-- Clamped to the lower of two caps, the amounts frozen today under either cap agree. -/
theorem min_tdFrozen_foldl (os : List OrderData) (nonneg : ∀ o ∈ os, 0 ≤ o.remaining)
    (l l' : Leg) (cap : l'.td ≤ l.td) (eq : min l.tdFrozen l'.td = min l'.tdFrozen l'.td) :
    min (os.foldl (freezeLeg side) l).tdFrozen l'.td =
      min (os.foldl (freezeLeg side) l').tdFrozen l'.td := by
  induction os generalizing l l' with
  | nil => exact eq
  | cons o os ih =>
    have rem := nonneg o (by simp)
    have step : min (freezeLeg side l o).tdFrozen l'.td =
        min (freezeLeg side l' o).tdFrozen l'.td := by
      rw [freezeLeg_tdFrozen, freezeLeg_tdFrozen]
      split
      · cases o.offset <;> simp only [eq] <;> grind
      · exact eq
    have next := ih (fun o mem => nonneg o (by simp [mem])) (freezeLeg side l o)
      (freezeLeg side l' o) (by simpa only [freezeLeg_td] using cap)
      (by simpa only [freezeLeg_td] using step)
    simpa only [List.foldl_cons, freezeLeg_td] using next

variable (side) in
/-- While no `CLOSE` order reaches beyond the lower cap, the caps play no role. -/
theorem tdFrozen_foldl_of_within (os : List OrderData) (l l' : Leg) (cap : l'.td ≤ l.td)
    (eq : l.tdFrozen = l'.tdFrozen) (within : WithinToday side l'.td l'.tdFrozen os) :
    (os.foldl (freezeLeg side) l).tdFrozen = (os.foldl (freezeLeg side) l').tdFrozen := by
  induction os generalizing l l' with
  | nil => exact eq
  | cons o os ih =>
    have step : (freezeLeg side l o).tdFrozen = (freezeLeg side l' o).tdFrozen ∧
        WithinToday side l'.td (freezeLeg side l' o).tdFrozen os := by
      rw [freezeLeg_tdFrozen, freezeLeg_tdFrozen]
      unfold WithinToday at within
      split
      · rename_i closer
        rw [if_pos closer] at within
        cases off : o.offset <;> simp only [off] at within ⊢ <;> grind
      · rename_i closer
        rw [if_neg closer] at within
        exact ⟨eq, within⟩
    exact ih _ _ (by simpa only [freezeLeg_td] using cap) step.1
      (by simpa only [freezeLeg_td] using step.2)

variable (side) in
/-- Equal caps freeze equal amounts. -/
theorem tdFrozen_foldl_of_same (os : List OrderData) (l l' : Leg) (cap : l'.td = l.td)
    (eq : l.tdFrozen = l'.tdFrozen) :
    (os.foldl (freezeLeg side) l).tdFrozen = (os.foldl (freezeLeg side) l').tdFrozen := by
  induction os generalizing l l' with
  | nil => exact eq
  | cons o os ih =>
    have step : (freezeLeg side l o).tdFrozen = (freezeLeg side l' o).tdFrozen := by
      rw [freezeLeg_tdFrozen, freezeLeg_tdFrozen, eq, cap]
    exact ih _ _ (by simpa only [freezeLeg_td] using cap) step

variable (side) in
/-- An amount above the lower cap stays above it, and above what the lower cap allows. -/
theorem tdFrozen_foldl_above (os : List OrderData) (nonneg : ∀ o ∈ os, 0 ≤ o.remaining)
    (l l' : Leg) (cap : l'.td < l.td) (above : l'.td < l.tdFrozen)
    (more : l'.tdFrozen < l.tdFrozen) :
    l'.td < (os.foldl (freezeLeg side) l).tdFrozen ∧
      (os.foldl (freezeLeg side) l').tdFrozen < (os.foldl (freezeLeg side) l).tdFrozen := by
  induction os generalizing l l' with
  | nil => exact ⟨above, more⟩
  | cons o os ih =>
    have rem := nonneg o (by simp)
    have step : l'.td < (freezeLeg side l o).tdFrozen ∧
        (freezeLeg side l' o).tdFrozen < (freezeLeg side l o).tdFrozen := by
      rw [freezeLeg_tdFrozen, freezeLeg_tdFrozen]
      split
      · cases o.offset <;> simp only <;> grind
      · exact ⟨above, more⟩
    have next := ih (fun o mem => nonneg o (by simp [mem])) (freezeLeg side l o)
      (freezeLeg side l' o) (by simpa only [freezeLeg_td] using cap)
      (by simpa only [freezeLeg_td] using step.1) step.2
    simpa only [List.foldl_cons, freezeLeg_td] using next

variable (side) in
/-- Once a `CLOSE` order reaches beyond the lower cap, less is frozen today under it. -/
theorem tdFrozen_foldl_of_not_within (os : List OrderData)
    (nonneg : ∀ o ∈ os, 0 ≤ o.remaining) (l l' : Leg) (cap : l'.td < l.td)
    (eq : l.tdFrozen = l'.tdFrozen) (beyond : ¬ WithinToday side l'.td l'.tdFrozen os) :
    l'.td < (os.foldl (freezeLeg side) l).tdFrozen ∧
      (os.foldl (freezeLeg side) l').tdFrozen < (os.foldl (freezeLeg side) l).tdFrozen := by
  induction os generalizing l l' with
  | nil => exact absurd trivial beyond
  | cons o os ih =>
    have later : ∀ o ∈ os, 0 ≤ o.remaining := fun o mem => nonneg o (by simp [mem])
    have split : (l'.td < (freezeLeg side l o).tdFrozen ∧
          (freezeLeg side l' o).tdFrozen < (freezeLeg side l o).tdFrozen) ∨
        ((freezeLeg side l o).tdFrozen = (freezeLeg side l' o).tdFrozen ∧
          ¬ WithinToday side l'.td (freezeLeg side l' o).tdFrozen os) := by
      rw [freezeLeg_tdFrozen, freezeLeg_tdFrozen]
      unfold WithinToday at beyond
      split
      · rename_i closer
        rw [if_pos closer] at beyond
        cases off : o.offset <;> simp only [off] at beyond ⊢ <;> grind
      · rename_i closer
        rw [if_neg closer] at beyond
        exact Or.inr ⟨eq, beyond⟩
    rcases split with ⟨above, more⟩ | ⟨same, rest⟩
    · have next := tdFrozen_foldl_above side os later (freezeLeg side l o)
        (freezeLeg side l' o) (by simpa only [freezeLeg_td] using cap)
        (by simpa only [freezeLeg_td] using above) more
      simpa only [List.foldl_cons, freezeLeg_td] using next
    · have next := ih later (freezeLeg side l o) (freezeLeg side l' o)
        (by simpa only [freezeLeg_td] using cap) same
        (by simpa only [freezeLeg_td] using rest)
      simpa only [List.foldl_cons, freezeLeg_td] using next

end Freezing

end PositionHolding

/-! ## What a fill does to the volumes -/

/-- Today's volume of a leg after a closing fill of the given offset. -/
def todayAfter (td : ℚ) (offset : Offset) (exchange : Exchange) (volume : ℚ) : ℚ :=
  match offset with
  | .closeToday => td - volume
  | .close => if exchange.closesYesterday then td else max 0 (td - volume)
  | .none | .opening | .closeYesterday => td

theorem le_todayAfter (td : ℚ) {volume : ℚ} (offset : Offset) (exchange : Exchange)
    (fill : 0 ≤ volume) : td - volume ≤ todayAfter td offset exchange volume := by
  unfold todayAfter
  cases offset <;> simp only <;> grind

theorem todayAfter_le {td volume : ℚ} (offset : Offset) (exchange : Exchange) (held : 0 ≤ td)
    (fill : 0 ≤ volume) : todayAfter td offset exchange volume ≤ td := by
  unfold todayAfter
  cases offset <;> simp only <;> grind

namespace Leg

/-- A closing fill takes its volume out of today's and yesterday's volume together, and
leaves the frozen amounts alone. -/
theorem closed_eq (l : Leg) {offset : Offset} (closing : offset.isClosing) (exchange : Exchange)
    (volume : ℚ) :
    l.closed offset exchange volume =
      { l with
        td := todayAfter l.td offset exchange volume
        yd := l.td + l.yd - volume - todayAfter l.td offset exchange volume } := by
  cases offset with
  | none => simp [Offset.isClosing] at closing
  | opening => simp [Offset.isClosing] at closing
  | closeToday =>
    have yd : l.yd = l.td + l.yd - volume - (l.td - volume) := by ring
    simp [closed, todayAfter, ← yd]
  | closeYesterday =>
    have yd : l.yd - volume = l.td + l.yd - volume - l.td := by ring
    simp [closed, todayAfter, ← yd]
  | close =>
    unfold closed todayAfter
    simp only
    split
    · have yd : l.yd - volume = l.td + l.yd - volume - l.td := by ring
      simp [← yd]
    · split <;> rename_i drained
      · have yd : l.yd + (l.td - volume) = l.td + l.yd - volume - 0 := by ring
        simp [max_eq_left drained.le, yd]
      · have yd : l.yd = l.td + l.yd - volume - (l.td - volume) := by ring
        rw [max_eq_right (not_lt.mp drained), ← yd]

/-- Clamped legs over the same volumes agree when their clamped amounts do. -/
theorem sumPosFrozen_congr {l l' : Leg} (pos : l.pos = l'.pos) (td : l.td = l'.td)
    (yd : l.yd = l'.yd) :
    l.sumPosFrozen = l'.sumPosFrozen ↔
      min l.tdFrozen l.td = min l'.tdFrozen l.td ∧ min l.ydFrozen l.yd = min l'.ydFrozen l.yd := by
  unfold sumPosFrozen
  simp only [mk.injEq, pos, td, yd, true_and]
  constructor
  · rintro ⟨-, yd_eq, td_eq⟩
    exact ⟨td_eq, yd_eq⟩
  · rintro ⟨td_eq, yd_eq⟩
    exact ⟨by rw [td_eq, yd_eq], yd_eq, td_eq⟩

end Leg

namespace PositionHolding

/-- One leg under the two deliveries. The left side recomputes under the volumes before the
fill and clamps to those after it, the right side recomputes under those after it. -/
theorem freeze_then_clamp_iff {side : Side} {os : List OrderData}
    (nonneg : ∀ o ∈ os, 0 ≤ o.remaining) {l : Leg} {td : ℚ} (yd : ℚ) (td_le : td ≤ l.td)
    (yd_le : yd ≤ l.yd) (fits : (os.map (closingDemand side)).sum ≤ td + yd) :
    ({ (os.foldl (freezeLeg side) l.clearFrozen).sumPosFrozen with td, yd }).sumPos.sumPosFrozen =
        (os.foldl (freezeLeg side) ({ l with td, yd } : Leg).sumPos.clearFrozen).sumPosFrozen ↔
      td = l.td ∨ WithinToday side td 0 os := by
  set before := l.clearFrozen with before_eq
  set after := ({ l with td, yd } : Leg).sumPos.clearFrozen with after_eq
  obtain ⟨-, before_td, before_yd⟩ := freezeLeg_held side os before
  obtain ⟨after_pos, after_td, after_yd⟩ := freezeLeg_held side os after
  have before_sum := foldl_freezeLeg_sum side os before
  have after_sum := foldl_freezeLeg_sum side os after
  have today := min_tdFrozen_foldl side os nonneg before after td_le rfl
  have cap : after.td = td := rfl
  have zero : before.tdFrozen = 0 ∧ before.ydFrozen = 0 ∧ after.tdFrozen = 0 ∧
      after.ydFrozen = 0 := ⟨rfl, rfl, rfl, rfl⟩
  have before_held : before.td = l.td ∧ before.yd = l.yd := ⟨rfl, rfl⟩
  rw [Leg.sumPosFrozen_congr (by rw [after_pos]; rfl) (by rw [after_td]; rfl)
    (by rw [after_yd]; rfl)]
  simp only [Leg.sumPos, Leg.sumPosFrozen, before_td, before_yd]
  rw [cap] at today
  by_cases same : td = l.td
  · -- The caps agree, and so do the amounts frozen under them.
    have frozen := tdFrozen_foldl_of_same side os before after (by rw [cap, same]; rfl)
      rfl
    constructor
    · intro _
      exact Or.inl same
    · intro _
      constructor <;> grind
  · have lower : td < l.td := lt_of_le_of_ne td_le same
    by_cases within : WithinToday side td 0 os
    · have frozen := tdFrozen_foldl_of_within side os before after td_le rfl within
      constructor
      · intro _
        exact Or.inr within
      · intro _
        constructor <;> grind
    · obtain ⟨above, less⟩ :=
        tdFrozen_foldl_of_not_within side os nonneg before after lower rfl within
      constructor
      · rintro ⟨-, yesterday⟩
        exfalso
        grind
      · rintro (eq | eq)
        · exact absurd eq same
        · exact absurd eq within

/-! ## Registered closing orders and their fills -/

/-- What the fills still to come of a closing order can take out of the leg. A fill takes from
the long leg whatever its direction is, if it is not `LONG`. -/
def closingVolume (side : Side) (o : OrderData) : ℚ :=
  if ¬(o.direction = .long ↔ side = .long) ∧ o.offset.isClosing then o.remaining else 0

/-- The active closing orders against a leg ask for no more than its position. -/
def Fits (h : PositionHolding) : Prop :=
  ∀ side, total (closingVolume side) h.activeOrders ≤ (h.leg side).pos

/-- The states reached from position snapshots by registering closing orders that fit. -/
inductive Registered (enum : Enumeration AString OrderData) (contract : ContractData) :
    PositionHolding → Prop
  | snapshots (ps : List PositionData)
      (held : ∀ p ∈ ps, 0 ≤ p.ydVolume ∧ p.ydVolume ≤ p.volume) :
      Registered enum contract (ps.foldl updatePosition (ofContract contract))
  | register {h : PositionHolding} (reached : Registered enum contract h) (req : OrderRequest)
      (ktOrderid : AString) (closing : req.offset.isClosing) (volume : 0 < req.volume)
      (fits : (h.updateOrderRequest enum req ktOrderid).Fits) :
      Registered enum contract (h.updateOrderRequest enum req ktOrderid)

/-- What registering keeps: the active orders are untouched closing orders stored under their
own keys, the volumes are not negative, and the orders fit. -/
structure Ready (h : PositionHolding) : Prop where
  order : ∀ (k : AString) o, h.activeOrders[k]? = some o →
    o.ktOrderid = k ∧ o.offset.isClosing ∧ 0 ≤ o.remaining
  held : ∀ side, 0 ≤ (h.leg side).td ∧ 0 ≤ (h.leg side).yd ∧
    (h.leg side).pos = (h.leg side).td + (h.leg side).yd
  fits : h.Fits

/-- A volume filled on an order, as its order update and its trade report tell it. The price,
the times and whether the update ends the order are left open. -/
structure Fill (o : OrderData) (volume : ℚ) (update : OrderData) (trade : TradeData) :
    Prop where
  volume_pos : 0 < volume
  volume_le : volume ≤ o.remaining
  update_key : update.ktOrderid = o.ktOrderid
  update_direction : update.direction = o.direction
  update_offset : update.offset = o.offset
  update_volume : update.volume = o.volume
  update_traded : update.traded = o.traded + volume
  trade_direction : trade.direction = o.direction
  trade_offset : trade.offset = o.offset
  trade_exchange : trade.exchange = o.exchange
  trade_volume : trade.volume = volume

theorem Fill.update_remaining {o update : OrderData} {volume : ℚ} {trade : TradeData}
    (fill : Fill o volume update trade) : update.remaining = o.remaining - volume := by
  unfold OrderData.remaining
  rw [fill.update_volume, fill.update_traded]
  ring

variable {enum : Enumeration AString OrderData}

theorem ready_foldl_updatePosition (ps : List PositionData)
    (held : ∀ p ∈ ps, 0 ≤ p.ydVolume ∧ p.ydVolume ≤ p.volume) {h : PositionHolding}
    (empty : h.activeOrders = ∅) (ready : h.Ready) : (ps.foldl updatePosition h).Ready := by
  induction ps generalizing h with
  | nil => exact ready
  | cons p ps ih =>
    obtain ⟨yd, le⟩ := held p (by simp)
    have none : (h.updatePosition p).activeOrders = ∅ := by
      unfold updatePosition
      split <;> exact empty
    have legs : ∀ side, 0 ≤ ((h.updatePosition p).leg side).td ∧
        0 ≤ ((h.updatePosition p).leg side).yd ∧ ((h.updatePosition p).leg side).pos =
          ((h.updatePosition p).leg side).td + ((h.updatePosition p).leg side).yd := by
      intro side
      rw [leg_updatePosition]
      split
      · exact ⟨by simpa [Leg.snapshot] using le, yd, by simp [Leg.snapshot]⟩
      · exact ready.held side
    refine ih (fun p mem => held p (by simp [mem])) none ⟨by simp [none], legs, ?_⟩
    intro side
    obtain ⟨td, yd, pos⟩ := legs side
    rw [none, total_empty, pos]
    linarith

theorem ready_ofContract (contract : ContractData) : (ofContract contract).Ready where
  order := by simp [ofContract]
  held side := by cases side <;> simp [ofContract, leg]
  fits side := by cases side <;> simp [ofContract, leg]

theorem ready_register {h : PositionHolding} (ready : h.Ready) {req : OrderRequest}
    {ktOrderid : AString} (closing : req.offset.isClosing) (volume : 0 < req.volume)
    (fits : (h.updateOrderRequest enum req ktOrderid).Fits) :
    (h.updateOrderRequest enum req ktOrderid).Ready := by
  refine ⟨?_, ?_, fits⟩
  · intro k o stored
    simp only [updateOrderRequest, updateOrder_activeOrders,
      OrderRequest.createOrderData_isActive, if_true] at stored
    rw [ExtTreeMap.getElem?_insert] at stored
    split at stored
    · rename_i same
      obtain rfl := Option.some.inj stored
      refine ⟨by simpa using same, closing, ?_⟩
      rw [OrderRequest.createOrderData_remaining]
      exact volume.le
    · exact ready.order k o stored
  · intro side
    rw [updateOrderRequest, leg_updateOrder]
    set os := enum.values (h.updateOrder enum
      (req.createOrderData (orderidOf ktOrderid) (exchangeNameOf ktOrderid))).activeOrders
    obtain ⟨pos, td, yd⟩ := freezeLeg_held side os (h.leg side).clearFrozen
    simp only [Leg.sumPosFrozen, pos, td, yd]
    exact ready.held side

theorem Registered.ready {contract : ContractData} {h : PositionHolding}
    (reached : Registered enum contract h) : h.Ready := by
  induction reached with
  | snapshots ps held => exact ready_foldl_updatePosition ps held rfl (ready_ofContract contract)
  | register _ req ktOrderid closing volume fits ih => exact ready_register ih closing volume fits

/-! ## The two deliveries -/

/-- The active orders once an order update is handled. -/
def ordersAfter (h : PositionHolding) (update : OrderData) : ExtTreeMap AString OrderData :=
  if update.isActive then h.activeOrders.insert update.ktOrderid update
  else h.activeOrders.erase update.ktOrderid

theorem updateOrder_ordersAfter (h : PositionHolding) (update : OrderData) :
    (h.updateOrder enum update).activeOrders = h.ordersAfter update :=
  updateOrder_activeOrders enum h update

theorem updateTrade_ordersAfter (h : PositionHolding) (trade : TradeData) (update : OrderData) :
    (h.updateTrade trade).ordersAfter update = h.ordersAfter update := by
  simp [ordersAfter]

section Filled
variable {h : PositionHolding} {o update : OrderData} {volume : ℚ} {trade : TradeData}

variable (enum) in
theorem remaining_nonneg_ordersAfter (ready : h.Ready) (fill : Fill o volume update trade) :
    ∀ v ∈ enum.values (h.ordersAfter update), 0 ≤ v.remaining := by
  intro v mem
  obtain ⟨k, stored⟩ := enum.mem_values.mp mem
  unfold ordersAfter at stored
  split at stored
  · rw [ExtTreeMap.getElem?_insert] at stored
    split at stored
    · obtain rfl := Option.some.inj stored
      rw [fill.update_remaining]
      linarith [fill.volume_le]
    · exact (ready.order k v stored).2.2
  · rw [ExtTreeMap.getElem?_erase] at stored
    split at stored
    · exact absurd stored (by simp)
    · exact (ready.order k v stored).2.2

/-- After the fill the active orders still fit what is left of the leg. -/
theorem fits_ordersAfter (ready : h.Ready) (active : h.activeOrders[o.ktOrderid]? = some o)
    (fill : Fill o volume update trade) {side : Side}
    (closes : ¬(o.direction = .long ↔ side = .long)) :
    total (closingDemand side) (h.ordersAfter update) ≤ (h.leg side).pos - volume := by
  obtain ⟨-, closing, -⟩ := ready.order _ _ active
  have whole : closingVolume side o = o.remaining := if_pos ⟨closes, closing⟩
  have others : total (closingDemand side) (h.activeOrders.erase o.ktOrderid) ≤
      total (closingVolume side) (h.activeOrders.erase o.ktOrderid) := by
    apply total_le_total
    intro k v stored
    rw [ExtTreeMap.getElem?_erase] at stored
    split at stored
    · exact absurd stored (by simp)
    · have rem := (ready.order k v stored).2.2
      unfold closingDemand closingVolume
      cases side <;> grind [Side.closer]
  have own : closingDemand side update ≤ o.remaining - volume := by
    have rem := fill.update_remaining
    have le := fill.volume_le
    unfold closingDemand
    split <;> linarith
  have fits := ready.fits side
  rw [total_erase_of_some _ active, whole] at fits
  unfold ordersAfter
  rw [fill.update_key]
  split
  · rw [total_insert]
    linarith
  · have le := fill.volume_le
    linarith

/-- A leg that the fill does not close ends the same either way. -/
theorem leg_deliveries_of_not_closed (ready : h.Ready)
    (active : h.activeOrders[o.ktOrderid]? = some o) (fill : Fill o volume update trade)
    {side : Side} (opens : o.direction = .long ↔ side = .long) :
    ((h.updateOrder enum update).updateTrade trade).leg side =
      ((h.updateTrade trade).updateOrder enum update).leg side := by
  obtain ⟨-, closing, -⟩ := ready.order _ _ active
  have idle : ∀ l, tradeLeg side trade l = l := by
    intro l
    unfold tradeLeg
    rw [fill.trade_direction, if_pos opens, fill.trade_offset, if_neg]
    rintro opening
    rw [opening] at closing
    exact absurd closing (by decide)
  obtain ⟨-, -, pos⟩ := ready.held side
  rw [leg_updateTrade, idle, leg_updateOrder, leg_updateOrder, leg_updateTrade, idle]
  simp only [updateOrder_activeOrders, updateTrade_activeOrders]
  have same : (h.leg side).sumPos.sumPosFrozen.clearFrozen = (h.leg side).clearFrozen := by
    simp [Leg.sumPos, Leg.sumPosFrozen, Leg.clearFrozen, pos]
  rw [same]
  generalize enum.values _ = os
  obtain ⟨pos', td', yd'⟩ := freezeLeg_held side os (h.leg side).clearFrozen
  have sum := pos'.trans (pos.trans (congrArg₂ (· + ·) td'.symm yd'.symm))
  generalize os.foldl (freezeLeg side) (h.leg side).clearFrozen = l at sum
  simp [Leg.sumPos, Leg.sumPosFrozen, sum]

/-- The leg that the fill closes ends the same exactly when the fill leaves today's volume as
it was or the remaining `CLOSE` orders stay within what it leaves. -/
theorem leg_deliveries_of_closed (ready : h.Ready)
    (active : h.activeOrders[o.ktOrderid]? = some o) (fill : Fill o volume update trade)
    {side : Side} (closes : ¬(o.direction = .long ↔ side = .long)) :
    ((h.updateOrder enum update).updateTrade trade).leg side =
        ((h.updateTrade trade).updateOrder enum update).leg side ↔
      todayAfter (h.leg side).td o.offset o.exchange volume = (h.leg side).td ∨
        WithinToday side (todayAfter (h.leg side).td o.offset o.exchange volume) 0
          (enum.values (h.ordersAfter update)) := by
  obtain ⟨-, closing, -⟩ := ready.order _ _ active
  obtain ⟨td, yd, pos⟩ := ready.held side
  have nonneg := remaining_nonneg_ordersAfter enum ready fill
  have fits := fits_ordersAfter ready active fill closes
  have closed : ∀ l, tradeLeg side trade l = l.closed o.offset o.exchange volume := by
    intro l
    unfold tradeLeg
    rw [fill.trade_direction, if_neg closes, fill.trade_offset, fill.trade_exchange,
      fill.trade_volume]
  have filled := fill.volume_pos.le
  rw [leg_updateTrade, closed, leg_updateOrder, leg_updateOrder, leg_updateTrade, closed,
    Leg.closed_eq _ closing, Leg.closed_eq _ closing]
  rw [updateOrder_ordersAfter, updateOrder_ordersAfter, updateTrade_ordersAfter]
  rw [← freeze_then_clamp_iff nonneg
    ((h.leg side).td + (h.leg side).yd - volume -
      todayAfter (h.leg side).td o.offset o.exchange volume)
    (todayAfter_le o.offset o.exchange td filled)
    (by linarith [le_todayAfter (h.leg side).td o.offset o.exchange filled])
    (by rw [Enumeration.sum_values]; linarith)]
  obtain ⟨-, td', yd'⟩ :=
    freezeLeg_held side (enum.values (h.ordersAfter update)) (h.leg side).clearFrozen
  have td_eq : (((enum.values (h.ordersAfter update)).foldl (freezeLeg side)
      (h.leg side).clearFrozen).sumPosFrozen).td = (h.leg side).td := td'
  have yd_eq : (((enum.values (h.ordersAfter update)).foldl (freezeLeg side)
      (h.leg side).clearFrozen).sumPosFrozen).yd = (h.leg side).yd := yd'
  rw [td_eq, yd_eq]
  exact Iff.rfl

/-- The two reports of a fill commute exactly when, on the leg that the fill closes, today's
volume stays as it was or no `CLOSE` order left after the fill reaches beyond it. -/
theorem deliveries_agree_iff {contract : ContractData} (reached : Registered enum contract h)
    (active : h.activeOrders[o.ktOrderid]? = some o) (fill : Fill o volume update trade) :
    (h.updateOrder enum update).updateTrade trade =
        (h.updateTrade trade).updateOrder enum update ↔
      ∀ side, ¬(o.direction = .long ↔ side = .long) →
        todayAfter (h.leg side).td o.offset o.exchange volume = (h.leg side).td ∨
          WithinToday side (todayAfter (h.leg side).td o.offset o.exchange volume) 0
            (enum.values (h.ordersAfter update)) := by
  have ready := reached.ready
  constructor
  · intro agree side closes
    exact (leg_deliveries_of_closed ready active fill closes).mp (by rw [agree])
  · intro within
    apply ext_legs
    · simp
    · simp
    · simp
    · intro side
      by_cases opens : o.direction = .long ↔ side = .long
      · exact leg_deliveries_of_not_closed ready active fill opens
      · exact (leg_deliveries_of_closed ready active fill opens).mpr (within side opens)

end Filled

/-- A long position of twenty, half of it from today, with a `CLOSE` order for twelve. -/
def spilledClose : PositionHolding :=
  ((ofContract { symbol := "m2409", exchange := .dce, product := .futures, pricetick := 1 }
      ).updatePosition
      { symbol := "m2409", exchange := .dce, direction := .long, volume := 20, ydVolume := 10 }
    ).updateOrderRequest .sorted
      { symbol := "m2409", exchange := .dce, direction := .short, type := .limit
        volume := 12, price := 3000, offset := .close } "CTP.1"

/-- The order of `spilledClose`, with a fill reported on it. -/
def spilledOrder (traded : ℚ) (status : Status) : OrderData :=
  { symbol := "m2409", exchange := .dce, orderid := "1", direction := .short, offset := .close
    price := 3000, volume := 12, traded, status, exchangeName := "CTP" }

def spilledTrade (volume : ℚ) : TradeData :=
  { symbol := "m2409", exchange := .dce, orderid := "1", tradeid := "7", direction := .short
    offset := .close, price := 3000, volume, exchangeName := "CTP" }

theorem spilledClose_registered : Registered .sorted
    { symbol := "m2409", exchange := .dce, product := .futures, pricetick := 1 }
    spilledClose := by
  refine .register (.snapshots [{ symbol := "m2409", exchange := .dce, direction := .long
                                  volume := 20, ydVolume := 10 }] ?_) _ _ rfl ?_ ?_
  · simp
    norm_num
  · norm_num
  · intro side
    cases side <;> decide +kernel

theorem spilledOrder_fill {volume : ℚ} (pos : 0 < volume) (le : volume ≤ 12) (status : Status) :
    Fill (spilledOrder 0 .submitting) volume (spilledOrder volume status)
      (spilledTrade volume) where
  volume_pos := pos
  volume_le := by simpa [spilledOrder, OrderData.remaining] using le
  update_key := rfl
  update_direction := rfl
  update_offset := rfl
  update_volume := rfl
  update_traded := by simp [spilledOrder]
  trade_direction := rfl
  trade_offset := rfl
  trade_exchange := rfl
  trade_volume := rfl

/-- Three lots are filled: nine remain and seven are held from today. Delivered with the trade
last, two of the nine stay unfrozen. -/
theorem deliveries_disagree :
    ¬ ∀ (enum : Enumeration AString OrderData) (contract : ContractData) (h : PositionHolding)
      (o update : OrderData) (volume : ℚ) (trade : TradeData), Registered enum contract h →
      h.activeOrders[o.ktOrderid]? = some o → Fill o volume update trade →
      (h.updateOrder enum update).updateTrade trade =
        (h.updateTrade trade).updateOrder enum update := by
  intro all
  have agree := all .sorted _ _ (spilledOrder 0 .submitting) _ 3 _ spilledClose_registered
    (by decide +kernel) (spilledOrder_fill (by norm_num) (by norm_num) .partTraded)
  have frozen : ((spilledClose.updateOrder .sorted (spilledOrder 3 .partTraded)).updateTrade
        (spilledTrade 3)).long.posFrozen ≠
      ((spilledClose.updateTrade (spilledTrade 3)).updateOrder .sorted
        (spilledOrder 3 .partTraded)).long.posFrozen := by
    decide +kernel
  exact frozen (by rw [agree])

/-- Filled in full, the order freezes nothing either way. -/
theorem deliveries_agree_of_whole_fill :
    (spilledClose.updateOrder .sorted (spilledOrder 12 .allTraded)).updateTrade
        (spilledTrade 12) =
      (spilledClose.updateTrade (spilledTrade 12)).updateOrder .sorted
        (spilledOrder 12 .allTraded) := by
  refine (deliveries_agree_iff spilledClose_registered (o := spilledOrder 0 .submitting)
    (by decide +kernel) (spilledOrder_fill (by norm_num) (by norm_num) .allTraded)).mpr ?_
  intro side _
  right
  have none : spilledClose.ordersAfter (spilledOrder 12 .allTraded) = ∅ := by decide +kernel
  rw [none]
  have empty : (Enumeration.sorted : Enumeration AString OrderData).values ∅ = [] := by
    decide +kernel
  rw [empty]
  trivial

end PositionHolding

end KeenTrader.Engine
