import KeenTrader.Library.Containers
import KeenTrader.Engine.Object
import KeenTrader.Engine.Utility

/-!
# Position holdings and offset conversion

The classes of `converter.h`. The twelve amounts of a `PositionHolding` are its two legs:
`long.td` is `long_td`, `short.ydFrozen` is `short_yd_frozen`, and so on. A leg is opened by
orders of its own direction and closed by orders of the opposite one. `active_orders` is an
unordered map, so `calculateFrozen` takes the order in which it is enumerated as a parameter.
-/

namespace KeenTrader.Engine

open Std (ExtTreeMap)
open Containers

/-- The six amounts that a holding keeps for one direction. -/
structure Leg where
  pos : ℚ := 0
  yd : ℚ := 0
  td : ℚ := 0
  posFrozen : ℚ := 0
  ydFrozen : ℚ := 0
  tdFrozen : ℚ := 0
  deriving DecidableEq, Repr

namespace Leg

def snapshot (l : Leg) (volume ydVolume : ℚ) : Leg :=
  { l with pos := volume, yd := ydVolume, td := volume - ydVolume }

def opened (l : Leg) (volume : ℚ) : Leg := { l with td := l.td + volume }

/-- A closing fill, by the offset of the trade. Plain `CLOSE` drains yesterday's volume on
SHFE and INE; elsewhere it drains today's volume first and carries the rest over. -/
def closed (l : Leg) (offset : Offset) (exchange : Exchange) (volume : ℚ) : Leg :=
  match offset with
  | .closeToday => { l with td := l.td - volume }
  | .closeYesterday => { l with yd := l.yd - volume }
  | .close =>
    if exchange.closesYesterday then { l with yd := l.yd - volume }
    else if l.td - volume < 0 then { l with yd := l.yd + (l.td - volume), td := 0 }
    else { l with td := l.td - volume }
  | .none | .opening => l

def sumPos (l : Leg) : Leg := { l with pos := l.td + l.yd }

def clearFrozen (l : Leg) : Leg := { l with posFrozen := 0, ydFrozen := 0, tdFrozen := 0 }

/-- What one active order freezes. `CLOSE` freezes today's volume and spills into
yesterday's what exceeds it. -/
def freeze (l : Leg) (offset : Offset) (frozen : ℚ) : Leg :=
  match offset with
  | .closeToday => { l with tdFrozen := l.tdFrozen + frozen }
  | .closeYesterday => { l with ydFrozen := l.ydFrozen + frozen }
  | .close =>
    if l.td < l.tdFrozen + frozen then
      { l with ydFrozen := l.ydFrozen + (l.tdFrozen + frozen - l.td), tdFrozen := l.td }
    else { l with tdFrozen := l.tdFrozen + frozen }
  | .none | .opening => l

def sumPosFrozen (l : Leg) : Leg :=
  { l with
    tdFrozen := min l.tdFrozen l.td
    ydFrozen := min l.ydFrozen l.yd
    posFrozen := min l.tdFrozen l.td + min l.ydFrozen l.yd }

end Leg

structure PositionHolding where
  ktSymbol : AString
  exchange : Exchange
  activeOrders : ExtTreeMap AString OrderData := ∅
  long : Leg := {}
  short : Leg := {}
  deriving DecidableEq

namespace PositionHolding

def ofContract (contract : ContractData) : PositionHolding :=
  { ktSymbol := contract.ktSymbol, exchange := contract.exchange }

def updatePosition (h : PositionHolding) (p : PositionData) : PositionHolding :=
  if p.direction = .long then { h with long := h.long.snapshot p.volume p.ydVolume }
  else { h with short := h.short.snapshot p.volume p.ydVolume }

def sumPosFrozen (h : PositionHolding) : PositionHolding :=
  { h with long := h.long.sumPosFrozen, short := h.short.sumPosFrozen }

def freezeOrder (h : PositionHolding) (o : OrderData) : PositionHolding :=
  if o.offset = .opening then h
  else match o.direction with
    | .long => { h with short := h.short.freeze o.offset o.remaining }
    | .short => { h with long := h.long.freeze o.offset o.remaining }
    | .net => h

def clearFrozen (h : PositionHolding) : PositionHolding :=
  { h with long := h.long.clearFrozen, short := h.short.clearFrozen }

def updateTrade (h : PositionHolding) (t : TradeData) : PositionHolding :=
  let h :=
    if t.direction = .long then
      if t.offset = .opening then { h with long := h.long.opened t.volume }
      else { h with short := h.short.closed t.offset t.exchange t.volume }
    else
      if t.offset = .opening then { h with short := h.short.opened t.volume }
      else { h with long := h.long.closed t.offset t.exchange t.volume }
  sumPosFrozen { h with long := h.long.sumPos, short := h.short.sumPos }

section Enumerated
variable (enum : Enumeration AString OrderData)

def calculateFrozen (h : PositionHolding) : PositionHolding :=
  ((enum.values h.activeOrders).foldl freezeOrder h.clearFrozen).sumPosFrozen

def updateOrder (h : PositionHolding) (o : OrderData) : PositionHolding :=
  calculateFrozen enum
    { h with activeOrders :=
        if o.isActive then h.activeOrders.insert o.ktOrderid o
        else h.activeOrders.erase o.ktOrderid }

def updateOrderRequest (h : PositionHolding) (req : OrderRequest) (ktOrderid : AString) :
    PositionHolding :=
  h.updateOrder enum (req.createOrderData (orderidOf ktOrderid) (exchangeNameOf ktOrderid))

end Enumerated

/-- The leg that an order of the given direction closes. -/
def closedBy (h : PositionHolding) (direction : Direction) : Leg :=
  if direction = .long then h.short else h.long

def convertOrderRequestShfe (h : PositionHolding) (req : OrderRequest) : List OrderRequest :=
  if req.offset = .opening then [req]
  else
    let leg := h.closedBy req.direction
    let posAvailable := toInt (leg.pos - leg.posFrozen)
    let tdAvailable := toInt (leg.td - leg.tdFrozen)
    if posAvailable < req.volume then []
    else if req.volume ≤ tdAvailable then [{ req with offset := .closeToday }]
    else
      (if 0 < tdAvailable then [{ req with offset := .closeToday, volume := tdAvailable }]
        else []) ++
      [{ req with offset := .closeYesterday, volume := req.volume - tdAvailable }]

def convertOrderRequestLock (h : PositionHolding) (req : OrderRequest) : List OrderRequest :=
  let leg := h.closedBy req.direction
  let ydAvailable := leg.yd - leg.ydFrozen
  if leg.td ≠ 0 ∧ h.exchange.closesYesterday = false then [{ req with offset := .opening }]
  else
    let closeVolume := toInt (min req.volume ydAvailable)
    let openVolume := toInt (max 0 (req.volume - ydAvailable))
    let offset := if h.exchange.closesYesterday then Offset.closeYesterday else .close
    (if 0 < ydAvailable then [{ req with offset, volume := closeVolume }] else []) ++
    (if 0 < openVolume then [{ req with offset := .opening, volume := openVolume }] else [])

/-- One closing request of the net conversion: as much of `left` as is available, in whole
lots, and what then remains. -/
def closePart (req : OrderRequest) (offset : Offset) (available left : ℚ) :
    List OrderRequest × ℚ :=
  if 0 < available then
    let volume := toInt (min available left)
    ([{ req with offset, volume }], left - volume)
  else ([], left)

def convertOrderRequestNet (h : PositionHolding) (req : OrderRequest) : List OrderRequest :=
  let leg := h.closedBy req.direction
  let (reqs, volumeLeft) :=
    if req.exchange.closesYesterday then
      let (tdReqs, left) := closePart req .closeToday (leg.td - leg.tdFrozen) req.volume
      let (ydReqs, left) :=
        if 0 < left then closePart req .closeYesterday (leg.yd - leg.ydFrozen) left
        else ([], left)
      (tdReqs ++ ydReqs, left)
    else closePart req .close (leg.pos - leg.posFrozen) req.volume
  reqs ++ if 0 < volumeLeft then [{ req with offset := .opening, volume := volumeLeft }] else []

end PositionHolding

/-- The converter of one exchange. `address` stands for the pointer that `new` returned. -/
structure OffsetConverter where
  address : ℕ
  holdings : ExtTreeMap AString PositionHolding := ∅
  deriving DecidableEq

namespace OffsetConverter

section Contracts
variable (getContract : AString → Option ContractData)

def isConvertRequired (ktSymbol : AString) : Bool :=
  match getContract ktSymbol with
  | none => false
  | some contract => !contract.netPosition

/-- The holding of a symbol, created from its contract on first use. -/
def getPositionHolding (c : OffsetConverter) (ktSymbol : AString) : Option PositionHolding :=
  match c.holdings[ktSymbol]? with
  | some h => some h
  | none => (getContract ktSymbol).map PositionHolding.ofContract

/-- Apply `f` to the holding of a symbol that needs conversion; other symbols are left alone. -/
def modifyHolding (c : OffsetConverter) (ktSymbol : AString)
    (f : PositionHolding → PositionHolding) : OffsetConverter :=
  if isConvertRequired getContract ktSymbol then
    match c.getPositionHolding getContract ktSymbol with
    | some h => { c with holdings := c.holdings.insert ktSymbol (f h) }
    | none => c
  else c

def updatePosition (c : OffsetConverter) (p : PositionData) : OffsetConverter :=
  c.modifyHolding getContract p.ktSymbol (·.updatePosition p)

def updateTrade (c : OffsetConverter) (t : TradeData) : OffsetConverter :=
  c.modifyHolding getContract t.ktSymbol (·.updateTrade t)

variable (enum : Enumeration AString OrderData)

def updateOrder (c : OffsetConverter) (o : OrderData) : OffsetConverter :=
  c.modifyHolding getContract o.ktSymbol (·.updateOrder enum o)

def updateOrderRequest (c : OffsetConverter) (req : OrderRequest) (ktOrderid : AString) :
    OffsetConverter :=
  c.modifyHolding getContract req.ktSymbol (·.updateOrderRequest enum req ktOrderid)

/-- Asking for a conversion creates the holding it looks at. -/
def convertOrderRequest (c : OffsetConverter) (req : OrderRequest) (lock net : Bool) :
    List OrderRequest × OffsetConverter :=
  if isConvertRequired getContract req.ktSymbol then
    match c.getPositionHolding getContract req.ktSymbol with
    | none => ([], c)
    | some h =>
      (if lock then h.convertOrderRequestLock req
        else if net then h.convertOrderRequestNet req
        else if req.exchange.closesYesterday then h.convertOrderRequestShfe req
        else [req],
        { c with holdings := c.holdings.insert req.ktSymbol h })
  else ([req], c)

variable {getContract}

@[simp] theorem modifyHolding_address (c : OffsetConverter) (ktSymbol : AString)
    (f : PositionHolding → PositionHolding) :
    (c.modifyHolding getContract ktSymbol f).address = c.address := by
  unfold modifyHolding
  split
  · split <;> rfl
  · rfl

/-- An update reaches the holding of its own symbol, if that symbol needs conversion. -/
theorem getPositionHolding_modifyHolding (c : OffsetConverter) (updated ktSymbol : AString)
    (f : PositionHolding → PositionHolding) :
    (c.modifyHolding getContract updated f).getPositionHolding getContract ktSymbol =
      if updated = ktSymbol ∧ isConvertRequired getContract ktSymbol then
        (c.getPositionHolding getContract ktSymbol).map f
      else c.getPositionHolding getContract ktSymbol := by
  by_cases same : updated = ktSymbol
  · subst same
    unfold modifyHolding
    cases isConvertRequired getContract updated with
    | false => simp
    | true =>
      simp only [if_true, and_self]
      cases found : c.getPositionHolding getContract updated with
      | none => simpa using found
      | some h => simp [getPositionHolding]
  · have other : ∀ h, ({ c with holdings := c.holdings.insert updated h } :
        OffsetConverter).getPositionHolding getContract ktSymbol =
        c.getPositionHolding getContract ktSymbol := by
      intro h
      simp [getPositionHolding, ExtTreeMap.getElem?_insert, same]
    unfold modifyHolding
    simp only [same, false_and, if_false]
    split
    · split
      · exact other _
      · rfl
    · rfl

end Contracts

end OffsetConverter

/-! ## One leg at a time -/

/-- The two legs of a holding, by the position they hold. -/
inductive Side where
  | long | short
  deriving DecidableEq, Repr

namespace Side

/-- The direction of the orders that close the position. -/
def closer : Side → Direction
  | .long => .short
  | .short => .long

end Side

def Offset.isClosing : Offset → Bool
  | .close | .closeToday | .closeYesterday => true
  | .none | .opening => false

namespace PositionHolding

def leg (h : PositionHolding) : Side → Leg
  | .long => h.long
  | .short => h.short

theorem ext_legs {h h' : PositionHolding} (sym : h.ktSymbol = h'.ktSymbol)
    (exch : h.exchange = h'.exchange) (act : h.activeOrders = h'.activeOrders)
    (legs : ∀ side, h.leg side = h'.leg side) : h = h' := by
  have hl := legs .long
  have hs := legs .short
  cases h
  cases h'
  simp_all [leg]

theorem closedBy_closer (h : PositionHolding) (side : Side) :
    h.closedBy side.closer = h.leg side := by
  cases side <;> rfl

/-- The effect of an active order on one leg. -/
def freezeLeg (side : Side) (l : Leg) (o : OrderData) : Leg :=
  if o.direction = side.closer then l.freeze o.offset o.remaining else l

/-- The effect of a fill on one leg, before the position and the frozen amounts are summed
up. -/
def tradeLeg (side : Side) (t : TradeData) (l : Leg) : Leg :=
  if t.direction = .long ↔ side = .long then
    if t.offset = .opening then l.opened t.volume else l
  else l.closed t.offset t.exchange t.volume

theorem leg_updatePosition (h : PositionHolding) (p : PositionData) (side : Side) :
    (h.updatePosition p).leg side =
      if p.direction = .long ↔ side = .long then (h.leg side).snapshot p.volume p.ydVolume
      else h.leg side := by
  unfold updatePosition
  cases side <;> by_cases long : p.direction = .long <;> simp [leg, long]

theorem leg_updateTrade (h : PositionHolding) (t : TradeData) (side : Side) :
    (h.updateTrade t).leg side = (tradeLeg side t (h.leg side)).sumPos.sumPosFrozen := by
  unfold updateTrade tradeLeg
  cases side <;> by_cases long : t.direction = .long <;> by_cases opens : t.offset = .opening <;>
    simp [leg, long, opens, sumPosFrozen, Leg.closed]

theorem leg_freezeOrder (h : PositionHolding) (o : OrderData) (side : Side) :
    (h.freezeOrder o).leg side = freezeLeg side (h.leg side) o := by
  unfold freezeOrder freezeLeg
  by_cases opens : o.offset = .opening
  · cases side <;> simp [leg, opens, Leg.freeze]
  · cases side <;> cases dir : o.direction <;> simp [leg, opens, Side.closer]

theorem leg_foldl_freezeOrder (os : List OrderData) (h : PositionHolding) (side : Side) :
    (os.foldl freezeOrder h).leg side = os.foldl (freezeLeg side) (h.leg side) := by
  induction os generalizing h with
  | nil => rfl
  | cons o os ih => rw [List.foldl_cons, ih, leg_freezeOrder, List.foldl_cons]

section Enumerated
variable (enum : Enumeration AString OrderData)

/-- The frozen amounts of a leg are recomputed from nothing, order by order. -/
theorem leg_calculateFrozen (h : PositionHolding) (side : Side) :
    (h.calculateFrozen enum).leg side =
      ((enum.values h.activeOrders).foldl (freezeLeg side)
        (h.leg side).clearFrozen).sumPosFrozen := by
  have fold := leg_foldl_freezeOrder (enum.values h.activeOrders) h.clearFrozen side
  have clear : h.clearFrozen.leg side = (h.leg side).clearFrozen := by cases side <;> rfl
  rw [clear] at fold
  rw [← fold]
  cases side <;> rfl

theorem foldl_freezeOrder_frame (os : List OrderData) (h : PositionHolding) :
    (os.foldl freezeOrder h).activeOrders = h.activeOrders ∧
      (os.foldl freezeOrder h).exchange = h.exchange ∧
      (os.foldl freezeOrder h).ktSymbol = h.ktSymbol := by
  induction os generalizing h with
  | nil => exact ⟨rfl, rfl, rfl⟩
  | cons o os ih =>
    obtain ⟨act, exch, sym⟩ := ih (h.freezeOrder o)
    have one : (h.freezeOrder o).activeOrders = h.activeOrders ∧
        (h.freezeOrder o).exchange = h.exchange ∧ (h.freezeOrder o).ktSymbol = h.ktSymbol := by
      unfold freezeOrder
      split
      · exact ⟨rfl, rfl, rfl⟩
      · split <;> exact ⟨rfl, rfl, rfl⟩
    exact ⟨act.trans one.1, exch.trans one.2.1, sym.trans one.2.2⟩

@[simp] theorem calculateFrozen_activeOrders (h : PositionHolding) :
    (h.calculateFrozen enum).activeOrders = h.activeOrders :=
  (foldl_freezeOrder_frame _ h.clearFrozen).1

@[simp] theorem calculateFrozen_exchange (h : PositionHolding) :
    (h.calculateFrozen enum).exchange = h.exchange :=
  (foldl_freezeOrder_frame _ h.clearFrozen).2.1

@[simp] theorem calculateFrozen_ktSymbol (h : PositionHolding) :
    (h.calculateFrozen enum).ktSymbol = h.ktSymbol :=
  (foldl_freezeOrder_frame _ h.clearFrozen).2.2

@[simp] theorem updateOrder_activeOrders (h : PositionHolding) (o : OrderData) :
    (h.updateOrder enum o).activeOrders =
      if o.isActive then h.activeOrders.insert o.ktOrderid o
      else h.activeOrders.erase o.ktOrderid := by
  simp [updateOrder]

@[simp] theorem updateOrder_exchange (h : PositionHolding) (o : OrderData) :
    (h.updateOrder enum o).exchange = h.exchange := by
  simp [updateOrder]

@[simp] theorem updateOrder_ktSymbol (h : PositionHolding) (o : OrderData) :
    (h.updateOrder enum o).ktSymbol = h.ktSymbol := by
  simp [updateOrder]

theorem leg_updateOrder (h : PositionHolding) (o : OrderData) (side : Side) :
    (h.updateOrder enum o).leg side =
      ((enum.values (h.updateOrder enum o).activeOrders).foldl (freezeLeg side)
        (h.leg side).clearFrozen).sumPosFrozen := by
  rw [updateOrder_activeOrders, updateOrder, leg_calculateFrozen]
  cases side <;> rfl

end Enumerated

@[simp] theorem updateTrade_activeOrders (h : PositionHolding) (t : TradeData) :
    (h.updateTrade t).activeOrders = h.activeOrders := by
  unfold updateTrade sumPosFrozen
  split_ifs <;> rfl

@[simp] theorem updateTrade_exchange (h : PositionHolding) (t : TradeData) :
    (h.updateTrade t).exchange = h.exchange := by
  unfold updateTrade sumPosFrozen
  split_ifs <;> rfl

@[simp] theorem updateTrade_ktSymbol (h : PositionHolding) (t : TradeData) :
    (h.updateTrade t).ktSymbol = h.ktSymbol := by
  unfold updateTrade sumPosFrozen
  split_ifs <;> rfl

end PositionHolding

end KeenTrader.Engine
