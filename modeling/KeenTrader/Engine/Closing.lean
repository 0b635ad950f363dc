import KeenTrader.Engine.Soundness

/-!
# Closing by today's and yesterday's volume

`CLOSE` requests of an SHFE or INE contract are split into `CLOSETODAY` and `CLOSEYESTERDAY`
pieces, which are registered as active orders at once; order updates and trade reports then
arrive in any interleaving. A ledger keeps, beside the holding, what has been reported of each
order. What the fills still to be reported by trades can take out of a leg stays within the
leg, as long as a request is converted only when no reported fill still waits for its trade
and an inactive order stays as it is.
-/

namespace KeenTrader.Engine

open Std (ExtTreeMap)
open Containers Runs

/-- The two parts of a leg, and the offsets that close them. -/
inductive Part where
  | today | yesterday
  deriving DecidableEq, Repr

namespace Part

def offset : Part → Offset
  | .today => .closeToday
  | .yesterday => .closeYesterday

theorem offset_injective {p q : Part} (eq : p.offset = q.offset) : p = q := by
  cases p <;> cases q <;> first | rfl | exact absurd eq (by decide)

end Part

namespace Leg

def held (l : Leg) : Part → ℚ
  | .today => l.td
  | .yesterday => l.yd

def frozen (l : Leg) : Part → ℚ
  | .today => l.tdFrozen
  | .yesterday => l.ydFrozen

@[simp] theorem held_clearFrozen (l : Leg) (part : Part) :
    l.clearFrozen.held part = l.held part := by
  cases part <;> rfl

@[simp] theorem frozen_clearFrozen (l : Leg) (part : Part) : l.clearFrozen.frozen part = 0 := by
  cases part <;> rfl

@[simp] theorem held_sumPosFrozen (l : Leg) (part : Part) :
    l.sumPosFrozen.held part = l.held part := by
  cases part <;> rfl

@[simp] theorem frozen_sumPosFrozen (l : Leg) (part : Part) :
    l.sumPosFrozen.frozen part = min (l.frozen part) (l.held part) := by
  cases part <;> rfl

@[simp] theorem held_sumPos (l : Leg) (part : Part) : l.sumPos.held part = l.held part := by
  cases part <;> rfl

@[simp] theorem frozen_sumPos (l : Leg) (part : Part) : l.sumPos.frozen part = l.frozen part := by
  cases part <;> rfl

/-- Orders that close one part freeze that part alone. -/
theorem frozen_freeze (l : Leg) (closes part : Part) (amount : ℚ) :
    (l.freeze closes.offset amount).frozen part =
      l.frozen part + if closes = part then amount else 0 := by
  cases closes <;> cases part <;> simp [freeze, Part.offset, frozen]

/-- Fills of such orders drain that part alone. -/
theorem held_closed (l : Leg) (closes part : Part) (exchange : Exchange) (volume : ℚ) :
    (l.closed closes.offset exchange volume).held part =
      l.held part - if closes = part then volume else 0 := by
  cases closes <;> cases part <;> simp [closed, Part.offset, held]

theorem frozen_closed (l : Leg) (closes part : Part) (exchange : Exchange) (volume : ℚ) :
    (l.closed closes.offset exchange volume).frozen part = l.frozen part := by
  cases closes <;> cases part <;> rfl

end Leg

/-! ## Whole lots -/

def Whole (q : ℚ) : Prop := ∃ n : ℤ, q = n

namespace Whole

theorem add {p q : ℚ} (hp : Whole p) (hq : Whole q) : Whole (p + q) := by
  obtain ⟨m, rfl⟩ := hp
  obtain ⟨n, rfl⟩ := hq
  exact ⟨m + n, by push_cast; rfl⟩

theorem sub {p q : ℚ} (hp : Whole p) (hq : Whole q) : Whole (p - q) := by
  obtain ⟨m, rfl⟩ := hp
  obtain ⟨n, rfl⟩ := hq
  exact ⟨m - n, by push_cast; rfl⟩

theorem min {p q : ℚ} (hp : Whole p) (hq : Whole q) : Whole (min p q) := by
  rcases min_choice p q with eq | eq <;> rw [eq] <;> assumption

theorem zero : Whole 0 := ⟨0, by simp⟩

instance (q : ℚ) : Decidable (Whole q) :=
  decidable_of_iff (q.den = 1)
    ⟨fun one => ⟨q.num, ((Rat.den_eq_one_iff q).mp one).symm⟩, by rintro ⟨n, rfl⟩; simp⟩

theorem sum {qs : List ℚ} (whole : ∀ q ∈ qs, Whole q) : Whole qs.sum := by
  induction qs with
  | nil => exact zero
  | cons q qs ih =>
    rw [List.sum_cons]
    exact (whole q (by simp)).add (ih fun q mem => whole q (by simp [mem]))

end Whole

/-- A whole amount read as an `int` is itself, or negative when it does not fit. -/
theorem toInt_whole {q : ℚ} (whole : Whole q) (nonneg : 0 ≤ q) :
    (toInt q : ℚ) = q ∧ q < 2 ^ 31 ∨ toInt q = -2 ^ 31 ∧ 2 ^ 31 ≤ q := by
  obtain ⟨n, rfl⟩ := whole
  have low : 0 ≤ n := by exact_mod_cast nonneg
  by_cases fits : n < 2 ^ 31
  · left
    rw [toInt_of_fits (by omega) fits]
    exact ⟨rfl, by exact_mod_cast fits⟩
  · right
    rw [toInt_of_large (by omega)]
    exact ⟨rfl, by exact_mod_cast not_lt.mp fits⟩

namespace PositionHolding

/-- What an active order asks of one part of the leg it closes. -/
def closeVolume (part : Part) (side : Side) (o : OrderData) : ℚ :=
  if o.direction = side.closer ∧ o.offset = part.offset then o.remaining else 0

/-- Orders whose offsets name a part freeze exactly what they ask of it. -/
theorem frozen_foldl_freezeLeg {os : List OrderData} {side : Side}
    (parts : ∀ o ∈ os, ∃ part : Part, o.offset = part.offset) (l : Leg) (part : Part) :
    (os.foldl (freezeLeg side) l).frozen part =
      l.frozen part + (os.map (closeVolume part side)).sum := by
  induction os generalizing l with
  | nil => simp
  | cons o os ih =>
    obtain ⟨closes, offset⟩ := parts o (by simp)
    have one : (freezeLeg side l o).frozen part = l.frozen part + closeVolume part side o := by
      unfold freezeLeg closeVolume
      by_cases closer : o.direction = side.closer
      · rw [if_pos closer, offset, Leg.frozen_freeze]
        by_cases same : closes = part
        · simp [closer, same]
        · have other : closes.offset ≠ part.offset := fun eq => same (Part.offset_injective eq)
          simp [same, other]
      · simp [closer]
    rw [List.foldl_cons, ih (fun o mem => parts o (by simp [mem])), one, List.map_cons,
      List.sum_cons]
    ring

theorem held_foldl_freezeLeg (side : Side) (os : List OrderData) (l : Leg) (part : Part) :
    (os.foldl (freezeLeg side) l).held part = l.held part := by
  obtain ⟨-, td, yd⟩ := freezeLeg_held side os l
  cases part
  · exact td
  · exact yd

theorem held_updateOrder (enum : Enumeration AString OrderData) (h : PositionHolding)
    (o : OrderData) (side : Side) (part : Part) :
    ((h.updateOrder enum o).leg side).held part = (h.leg side).held part := by
  rw [leg_updateOrder, Leg.held_sumPosFrozen, held_foldl_freezeLeg, Leg.held_clearFrozen]

theorem frozen_updateOrder (enum : Enumeration AString OrderData) (h : PositionHolding)
    (o : OrderData) (parts : ∀ (k : AString) v,
      (h.updateOrder enum o).activeOrders[k]? = some v → ∃ part : Part, v.offset = part.offset)
    (side : Side) (part : Part) :
    ((h.updateOrder enum o).leg side).frozen part =
      min (total (closeVolume part side) (h.updateOrder enum o).activeOrders)
        (((h.updateOrder enum o).leg side).held part) := by
  have listed : ∀ v ∈ enum.values (h.updateOrder enum o).activeOrders,
      ∃ part : Part, v.offset = part.offset := by
    intro v mem
    obtain ⟨k, stored⟩ := enum.mem_values.mp mem
    exact parts k v stored
  rw [held_updateOrder, leg_updateOrder, Leg.frozen_sumPosFrozen, frozen_foldl_freezeLeg listed,
    held_foldl_freezeLeg, Enumeration.sum_values]
  simp

/-- A fill of an order that closes one part of a leg drains that part, and the frozen amounts
are clamped to what is left. -/
theorem held_updateTrade (h : PositionHolding) {t : TradeData} (net : t.direction ≠ .net)
    {closes : Part} (offset : t.offset = closes.offset) (side : Side) (part : Part) :
    ((h.updateTrade t).leg side).held part = (h.leg side).held part -
        (if t.direction = side.closer ∧ t.offset = part.offset then t.volume else 0) ∧
      ((h.updateTrade t).leg side).frozen part =
        min ((h.leg side).frozen part) (((h.updateTrade t).leg side).held part) := by
  rw [leg_updateTrade, Leg.frozen_sumPosFrozen, Leg.held_sumPosFrozen, Leg.held_sumPos,
    Leg.frozen_sumPos]
  unfold tradeLeg
  by_cases closer : t.direction = side.closer
  · have closing : ¬(t.direction = .long ↔ side = .long) := by
      rw [closer]
      cases side <;> simp [Side.closer]
    rw [if_neg closing, offset, Leg.held_closed, Leg.frozen_closed]
    refine ⟨?_, rfl⟩
    by_cases same : closes = part
    · simp [closer, same]
    · have other : closes.offset ≠ part.offset := fun eq => same (Part.offset_injective eq)
      simp [same, other]
  · have opening : t.direction = .long ↔ side = .long := by
      cases side <;> cases dir : t.direction <;> simp_all [Side.closer]
    have not_open : t.offset ≠ .opening := by
      rw [offset]
      cases closes <;> decide
    rw [if_pos opening, if_neg not_open]
    simp [closer]

/-! ## What a conversion grants -/

/-- What a list of requests asks of one part. -/
def requested (part : Part) (reqs : List OrderRequest) : ℚ :=
  (reqs.map fun r => if r.offset = part.offset then r.volume else 0).sum

/-- A request of the conversion: of the original but for its part and its whole volume. -/
structure Piece (req piece : OrderRequest) : Prop where
  direction : piece.direction = req.direction
  part : ∃ part : Part, piece.offset = part.offset
  whole : Whole piece.volume
  nonneg : 0 ≤ piece.volume

/-- The requests are pieces of `req`, and ask for no more of either part of the leg than is
neither closed nor frozen. -/
structure Grants (leg : Leg) (req : OrderRequest) (reqs : List OrderRequest) : Prop where
  pieces : ∀ piece ∈ reqs, Piece req piece
  room : ∀ part, requested part reqs ≤ leg.held part - leg.frozen part

section Grants
variable {leg : Leg} {req : OrderRequest} (td_room : 0 ≤ leg.td - leg.tdFrozen)
  (yd_room : 0 ≤ leg.yd - leg.ydFrozen)

include td_room yd_room in
theorem grants_nil : Grants leg req [] := by
  refine ⟨by simp, ?_⟩
  intro part
  cases part
  · exact td_room
  · exact yd_room

include yd_room in
theorem grants_today (whole : Whole req.volume) (volume : 0 ≤ req.volume)
    (fits : req.volume ≤ leg.td - leg.tdFrozen) :
    Grants leg req [{ req with offset := .closeToday }] := by
  refine ⟨by simpa using ⟨rfl, ⟨.today, rfl⟩, whole, volume⟩, ?_⟩
  intro part
  cases part
  · simpa [requested, Part.offset, Leg.held, Leg.frozen] using fits
  · simpa [requested, Part.offset, Leg.held, Leg.frozen] using yd_room

include td_room in
/-- What of the request exceeds today's volume goes to yesterday's. -/
theorem grants_split {today : ℤ} (today_eq : (today : ℚ) = leg.td - leg.tdFrozen)
    (whole : Whole req.volume) (exceeds : leg.td - leg.tdFrozen < req.volume)
    (fits : req.volume ≤ leg.td - leg.tdFrozen + (leg.yd - leg.ydFrozen)) :
    Grants leg req
      ((if 0 < today then [{ req with offset := .closeToday, volume := (today : ℚ) }] else []) ++
      [{ req with offset := .closeYesterday, volume := req.volume - today }]) := by
  have rest : Piece req { req with offset := .closeYesterday, volume := req.volume - today } :=
    ⟨rfl, ⟨.yesterday, rfl⟩, whole.sub ⟨_, rfl⟩, by simp only [today_eq]; linarith⟩
  split
  · refine ⟨?_, ?_⟩
    · simp only [List.cons_append, List.nil_append, List.mem_cons, List.not_mem_nil,
        or_false, forall_eq_or_imp, forall_eq]
      exact ⟨⟨rfl, ⟨.today, rfl⟩, ⟨_, rfl⟩, by simp only [today_eq]; exact td_room⟩, rest⟩
    · intro part
      cases part
      · simp [requested, Part.offset, today_eq, Leg.held, Leg.frozen]
      · simp [requested, Part.offset, today_eq, Leg.held, Leg.frozen]
        linarith
  · refine ⟨by simpa using rest, ?_⟩
    intro part
    cases part
    · simpa [requested, Part.offset, Leg.held, Leg.frozen] using td_room
    · simp [requested, Part.offset, today_eq, Leg.held, Leg.frozen]
      linarith

end Grants

/-- A `CLOSE` request in whole lots is granted no more than there is room for. -/
theorem convertOrderRequestShfe_grants {h : PositionHolding} {req : OrderRequest}
    (close : req.offset = .close) (volume : 0 ≤ req.volume) (whole : Whole req.volume)
    (sound : (h.closedBy req.direction).Sound)
    (lots : ∀ part, Whole ((h.closedBy req.direction).held part) ∧
      Whole ((h.closedBy req.direction).frozen part)) :
    Grants (h.closedBy req.direction) req (h.convertOrderRequestShfe req) := by
  unfold convertOrderRequestShfe
  rw [if_neg (by rw [close]; decide)]
  generalize h.closedBy req.direction = leg at sound lots ⊢
  have today := lots .today
  have yesterday := lots .yesterday
  have td_room : 0 ≤ leg.td - leg.tdFrozen := by linarith [sound.td_le]
  have yd_room : 0 ≤ leg.yd - leg.ydFrozen := by linarith [sound.yd_le]
  have pos_room : leg.pos - leg.posFrozen = leg.td - leg.tdFrozen + (leg.yd - leg.ydFrozen) := by
    rw [sound.pos_eq, sound.frozen_eq]
    ring
  rcases toInt_whole (q := leg.pos - leg.posFrozen)
    (by rw [pos_room]; exact (today.1.sub today.2).add (yesterday.1.sub yesterday.2))
    (by rw [pos_room]; linarith) with ⟨pos_int, pos_lt⟩ | ⟨pos_int, -⟩
  · rcases toInt_whole (today.1.sub today.2) td_room with ⟨td_int, -⟩ | ⟨-, td_ge⟩
    · change (toInt (leg.td - leg.tdFrozen) : ℚ) = leg.td - leg.tdFrozen at td_int
      simp only
      split
      · exact grants_nil td_room yd_room
      rename_i enough
      rw [pos_int, pos_room, not_lt] at enough
      split
      · rename_i fits
        rw [td_int] at fits
        exact grants_today yd_room whole volume fits
      · rename_i exceeds
        rw [td_int, not_le] at exceeds
        exact grants_split td_room td_int whole exceeds enough
    · change 2 ^ 31 ≤ leg.td - leg.tdFrozen at td_ge
      linarith
  · rw [if_pos (by rw [pos_int]; push_cast; linarith)]
    exact grants_nil td_room yd_room

end PositionHolding

/-! ## The ledger of the reports -/

/-- What has been reported of one order: its latest order report, and the volume of its
trade reports. -/
structure Entry where
  order : OrderData
  filled : ℚ := 0
  deriving DecidableEq

namespace Entry

/-- The volume that trade reports may still take for the order. -/
def due (e : Entry) : ℚ :=
  (if e.order.isActive then e.order.volume else e.order.traded) - e.filled

def dueFrom (part : Part) (side : Side) (e : Entry) : ℚ :=
  if e.order.direction = side.closer ∧ e.order.offset = part.offset then e.due else 0

def active (e : Entry) : Option OrderData := if e.order.isActive then some e.order else none

/-- The entry after a trade of `volume`. -/
def fill (e : Entry) (volume : ℚ) : Entry := { e with filled := e.filled + volume }

@[simp] theorem fill_order (e : Entry) (volume : ℚ) : (e.fill volume).order = e.order := rfl

theorem due_fill (e : Entry) (volume : ℚ) : (e.fill volume).due = e.due - volume :=
  (sub_sub _ _ _).symm

theorem dueFrom_fill (e : Entry) (volume : ℚ) (part : Part) (side : Side) :
    (e.fill volume).dueFrom part side = e.dueFrom part side -
      if e.order.direction = side.closer ∧ e.order.offset = part.offset then volume else 0 := by
  unfold dueFrom
  rw [due_fill, fill_order]
  split <;> simp

end Entry

structure Ledger where
  holding : PositionHolding
  entries : ExtTreeMap AString Entry := ∅
  deriving DecidableEq

/-- What happens to a holding: a `CLOSE` request is converted and its pieces are registered
under the given order ids, or an order or a trade is reported. -/
inductive Report where
  | close (req : OrderRequest) (ktOrderids : List AString)
  | order (update : OrderData)
  | trade (trade : TradeData)

namespace Ledger

def start (contract : ContractData) (ps : List PositionData) : Ledger :=
  { holding := ps.foldl PositionHolding.updatePosition (.ofContract contract) }

/-- The order that registering a request under an order id makes active. -/
def registered (piece : OrderRequest × AString) : OrderData :=
  piece.1.createOrderData (orderidOf piece.2) (exchangeNameOf piece.2)

section Steps
variable (enum : Enumeration AString OrderData)

def register (d : Ledger) (piece : OrderRequest × AString) : Ledger :=
  { holding := d.holding.updateOrderRequest enum piece.1 piece.2
    entries := d.entries.insert (registered piece).ktOrderid { order := registered piece } }

/-- The pieces of a request with the ids they are registered under. -/
def pieces (d : Ledger) (req : OrderRequest) (ktOrderids : List AString) :
    List (OrderRequest × AString) :=
  (d.holding.convertOrderRequestShfe req).zip ktOrderids

def modify (d : Ledger) (ktOrderid : AString) (f : Entry → Entry) :
    ExtTreeMap AString Entry :=
  match d.entries[ktOrderid]? with
  | some e => d.entries.insert ktOrderid (f e)
  | none => d.entries

def step (d : Ledger) : Report → Ledger
  | .close req ktOrderids => (d.pieces req ktOrderids).foldl (register enum) d
  | .order update =>
    { holding := d.holding.updateOrder enum update
      entries := d.modify update.ktOrderid fun e => { e with order := update } }
  | .trade trade =>
    { holding := d.holding.updateTrade trade
      entries := d.modify trade.ktOrderid fun e => { e with filled := e.filled + trade.volume } }

end Steps

/-- The reports that can arrive: whole lots, fresh ids for the pieces of a request, traded
volumes that do not fall back, and no more trades than the order's volume. -/
def Wellformed (d : Ledger) : Report → Prop
  | .close req ktOrderids =>
    req.offset = .close ∧ req.direction ≠ .net ∧ 0 ≤ req.volume ∧ Whole req.volume ∧
      (d.holding.convertOrderRequestShfe req).length = ktOrderids.length ∧
      ((d.pieces req ktOrderids).map fun p => (registered p).ktOrderid).Nodup ∧
      ∀ p ∈ d.pieces req ktOrderids, d.entries[(registered p).ktOrderid]? = none
  | .order update =>
    ∃ e, d.entries[update.ktOrderid]? = some e ∧ update.direction = e.order.direction ∧
      update.offset = e.order.offset ∧ update.volume = e.order.volume ∧ Whole update.traded ∧
      e.order.traded ≤ update.traded ∧ update.traded ≤ update.volume
  | .trade trade =>
    ∃ e, d.entries[trade.ktOrderid]? = some e ∧ trade.direction = e.order.direction ∧
      trade.offset = e.order.offset ∧ 0 < trade.volume ∧ Whole trade.volume ∧
      e.filled + trade.volume ≤ e.order.volume

/-- No fill that an order update has reported still waits for its trade. -/
def TradesCaughtUp (d : Ledger) : Prop :=
  ∀ (k : AString) e, d.entries[k]? = some e → e.order.traded ≤ e.filled

/-- Requests are converted only when the trades have caught up with the order updates. -/
def ConvertsCaughtUp (d : Ledger) : Report → Prop
  | .close _ _ => d.TradesCaughtUp
  | .order _ | .trade _ => True

/-- An inactive order stays inactive, and its traded volume, which no trade exceeds, stays. -/
def InactiveIsFinal (d : Ledger) : Report → Prop
  | .close _ _ => True
  | .order update => ∀ e, d.entries[update.ktOrderid]? = some e →
      (e.order.isActive = false → update.isActive = false ∧ update.traded = e.order.traded) ∧
        (update.isActive = false → e.filled ≤ update.traded)
  | .trade trade => ∀ e, d.entries[trade.ktOrderid]? = some e → e.order.isActive = false →
      e.filled + trade.volume ≤ e.order.traded

/-- Both reports of every fill have been handled. -/
def Matched (d : Ledger) : Prop :=
  ∀ (k : AString) e, d.entries[k]? = some e → e.order.traded = e.filled

/-- The active orders against each part of each leg ask for no more than it holds. -/
def Covered (d : Ledger) : Prop :=
  ∀ side part, total (PositionHolding.closeVolume part side) d.holding.activeOrders ≤
    (d.holding.leg side).held part

instance (d : Ledger) : DecidablePred d.Wellformed
  | .close _ _ => inferInstanceAs (Decidable (_ ∧ _))
  | .order update => inferInstanceAs (Decidable (∃ e, d.entries[update.ktOrderid]? = some e ∧ _))
  | .trade t => inferInstanceAs (Decidable (∃ e, d.entries[t.ktOrderid]? = some e ∧ _))

instance (d : Ledger) : Decidable d.TradesCaughtUp := decidableForallEntries

instance (d : Ledger) : DecidablePred d.ConvertsCaughtUp
  | .close _ _ => inferInstanceAs (Decidable d.TradesCaughtUp)
  | .order _ | .trade _ => inferInstanceAs (Decidable True)

instance (d : Ledger) : DecidablePred d.InactiveIsFinal
  | .close _ _ => inferInstanceAs (Decidable True)
  | .order update =>
    inferInstanceAs (Decidable (∀ e, d.entries[update.ktOrderid]? = some e → _))
  | .trade t => inferInstanceAs (Decidable (∀ e, d.entries[t.ktOrderid]? = some e → _))

instance (d : Ledger) : Decidable d.Matched := decidableForallEntries

/-- What the reports preserve. The fields `active` and `frozen` tie the holding to the ledger,
`due` is the bound that the claims on the legs rest on. -/
structure Sane (d : Ledger) : Prop where
  order : ∀ (k : AString) e, d.entries[k]? = some e → e.order.ktOrderid = k ∧
    e.order.direction ≠ .net ∧ (∃ part : Part, e.order.offset = part.offset) ∧
    Whole e.order.volume ∧ Whole e.order.traded
  due_nonneg : ∀ (k : AString) e, d.entries[k]? = some e → 0 ≤ e.due
  active : d.holding.activeOrders = d.entries.filterMap fun _ e => e.active
  sound : d.holding.Sound
  whole : ∀ side part, Whole ((d.holding.leg side).held part)
  frozen : ∀ side part, (d.holding.leg side).frozen part =
    min (total (PositionHolding.closeVolume part side) d.holding.activeOrders)
      ((d.holding.leg side).held part)
  due : ∀ side part, total (Entry.dueFrom part side) d.entries ≤ (d.holding.leg side).held part

variable {enum : Enumeration AString OrderData} {d : Ledger}

theorem filterMap_active_insert (m : ExtTreeMap AString Entry) (k : AString) (e : Entry) :
    (m.insert k e).filterMap (fun _ e => e.active) =
      if e.order.isActive then (m.filterMap fun _ e => e.active).insert k e.order
      else (m.filterMap fun _ e => e.active).erase k := by
  apply ExtTreeMap.ext_getElem?
  intro a
  by_cases same : k = a
  · subst same
    cases act : e.order.isActive <;> simp [Entry.active, act]
  · cases act : e.order.isActive <;>
      simp [ExtTreeMap.getElem?_insert, ExtTreeMap.getElem?_erase, same]

theorem total_activeOrders (sane : d.Sane) (f : OrderData → ℚ) :
    total f d.holding.activeOrders = total (fun e : Entry => e.active.elim 0 f) d.entries := by
  rw [sane.active, total_filterMap]

/-- In a state without fills under way, what is due is what the active orders ask. -/
theorem Sane.covered (sane : d.Sane) (matched : d.Matched) : d.Covered := by
  intro side part
  refine le_trans ?_ (sane.due side part)
  rw [total_activeOrders sane]
  apply total_le_total
  intro k e stored
  have same := matched k e stored
  have nonneg := sane.due_nonneg k e stored
  unfold Entry.dueFrom Entry.active
  cases act : e.order.isActive with
  | false =>
    simp only [Bool.false_eq_true, if_false, Option.elim_none]
    split
    · exact nonneg
    · exact le_refl 0
  | true =>
    simp [PositionHolding.closeVolume, Entry.due, act, OrderData.remaining, same]

/-- Once the trades have caught up, nothing is due that is not frozen. -/
theorem Sane.due_le_frozen (sane : d.Sane) (caughtUp : d.TradesCaughtUp) (side : Side)
    (part : Part) :
    total (Entry.dueFrom part side) d.entries ≤ (d.holding.leg side).frozen part := by
  rw [sane.frozen]
  refine le_min ?_ (sane.due side part)
  rw [total_activeOrders sane]
  apply total_le_total
  intro k e stored
  have caught := caughtUp k e stored
  unfold Entry.dueFrom Entry.active Entry.due
  cases act : e.order.isActive with
  | false =>
    simp only [Bool.false_eq_true, if_false, Option.elim_none]
    split <;> linarith
  | true =>
    simp only [if_true, Option.elim_some, PositionHolding.closeVolume, OrderData.remaining]
    split <;> linarith

/-- One changed or new entry: the holding follows it as an order report. -/
theorem sane_insert (sane : d.Sane) {e : Entry} (net : e.order.direction ≠ .net)
    (closes : ∃ part : Part, e.order.offset = part.offset) (volume : Whole e.order.volume)
    (traded : Whole e.order.traded) (due : 0 ≤ e.due)
    (room : ∀ side part, Entry.dueFrom part side e +
      total (Entry.dueFrom part side) (d.entries.erase e.order.ktOrderid) ≤
        (d.holding.leg side).held part) :
    Sane { holding := d.holding.updateOrder enum e.order
           entries := d.entries.insert e.order.ktOrderid e } := by
  have active : (d.holding.updateOrder enum e.order).activeOrders =
      (d.entries.insert e.order.ktOrderid e).filterMap fun _ e => e.active := by
    rw [filterMap_active_insert, ← sane.active, PositionHolding.updateOrder_activeOrders]
  have orders : ∀ (k : AString) v, (d.entries.insert e.order.ktOrderid e)[k]? = some v →
      v.order.ktOrderid = k ∧ v.order.direction ≠ .net ∧
        (∃ part : Part, v.order.offset = part.offset) ∧ Whole v.order.volume ∧
        Whole v.order.traded := by
    intro k v stored
    rcases getElem?_insert_cases stored with ⟨rfl, key⟩ | before
    · exact ⟨key, net, closes, volume, traded⟩
    · exact sane.order k v before
  constructor
  · exact orders
  · intro k v stored
    rcases getElem?_insert_cases stored with ⟨rfl, -⟩ | before
    · exact due
    · exact sane.due_nonneg k v before
  · exact active
  · exact PositionHolding.sound_updateOrder sane.sound e.order
  · intro side part
    rw [PositionHolding.held_updateOrder]
    exact sane.whole side part
  · intro side part
    apply PositionHolding.frozen_updateOrder
    intro k o stored
    rw [active, ExtTreeMap.getElem?_filterMap'] at stored
    obtain ⟨v, at_k, is_active⟩ := Option.bind_eq_some_iff.mp stored
    unfold Entry.active at is_active
    split at is_active
    · obtain rfl := Option.some.inj is_active
      exact (orders k v at_k).2.2.1
    · exact absurd is_active (by simp)
  · intro side part
    rw [PositionHolding.held_updateOrder, total_insert]
    exact room side part

theorem sane_order (sane : d.Sane) {update : OrderData} (wellformed : Wellformed d (.order update))
    (final : InactiveIsFinal d (.order update)) : (d.step enum (.order update)).Sane := by
  obtain ⟨e, stored, direction, offset, volume, whole, le, le_volume⟩ := wellformed
  obtain ⟨stays, last⟩ := final e stored
  obtain ⟨-, net, closes, whole_volume, -⟩ := sane.order _ e stored
  have nonneg := sane.due_nonneg _ e stored
  -- An active order may become due for less, an inactive one stays as it is.
  have due : 0 ≤ ({ e with order := update } : Entry).due ∧
      ({ e with order := update } : Entry).due ≤ e.due := by
    unfold Entry.due at nonneg ⊢
    cases was : e.order.isActive with
    | false =>
      obtain ⟨now, same⟩ := stays was
      simp only [was, Bool.false_eq_true, if_false] at nonneg
      simp only [now, Bool.false_eq_true, if_false, same]
      exact ⟨nonneg, le_refl _⟩
    | true =>
      simp only [was, if_true] at nonneg
      cases now : update.isActive with
      | false =>
        have filled := last now
        simp only [Bool.false_eq_true, if_false, if_true]
        constructor <;> linarith
      | true =>
        simp only [if_true, volume]
        exact ⟨nonneg, le_refl _⟩
  have step : d.step enum (.order update) =
      { holding := d.holding.updateOrder enum update
        entries := d.entries.insert update.ktOrderid { e with order := update } } := by
    simp only [step, modify, stored]
  rw [step]
  refine sane_insert (e := { e with order := update }) sane (by rw [direction]; exact net)
    (by rw [offset]; exact closes) (by rw [volume]; exact whole_volume) whole due.1 ?_
  intro side part
  have before := sane.due side part
  rw [total_erase_of_some _ stored] at before
  have part_le : Entry.dueFrom part side { e with order := update } ≤
      Entry.dueFrom part side e := by
    unfold Entry.dueFrom
    rw [direction, offset]
    split
    · exact due.2
    · exact le_refl 0
  exact le_trans (add_le_add_left part_le _) before

/-- A trade report leaves the active orders of the ledger as they are. -/
theorem filterMap_active_fill {m : ExtTreeMap AString Entry} {k : AString} {e : Entry}
    (stored : m[k]? = some e) (volume : ℚ) :
    (m.insert k (e.fill volume)).filterMap (fun _ e => e.active) =
      m.filterMap fun _ e => e.active := by
  apply ExtTreeMap.ext_getElem?
  intro a
  simp only [ExtTreeMap.getElem?_filterMap', ExtTreeMap.getElem?_insert]
  split
  · rename_i same
    obtain rfl : k = a := by simpa using same
    rw [stored]
    rfl
  · rfl

theorem sane_trade (sane : d.Sane) {t : TradeData} (wellformed : Wellformed d (.trade t))
    (final : InactiveIsFinal d (.trade t)) : (d.step enum (.trade t)).Sane := by
  obtain ⟨e, stored, direction, offset, volume, whole, le⟩ := wellformed
  have last := final e stored
  obtain ⟨key, net, ⟨closes, closing⟩, whole_volume, whole_traded⟩ := sane.order _ e stored
  have step : d.step enum (.trade t) =
      { holding := d.holding.updateTrade t
        entries := d.entries.insert t.ktOrderid (e.fill t.volume) } := by
    simp only [step, modify, stored, Entry.fill]
  have drained := fun side part => d.holding.held_updateTrade (by rw [direction]; exact net)
    (offset.trans closing) side part
  rw [step]
  constructor
  · intro k v at_k
    rcases getElem?_insert_cases at_k with ⟨rfl, same⟩ | before
    · exact ⟨key.trans same, net, ⟨closes, closing⟩, whole_volume, whole_traded⟩
    · exact sane.order k v before
  · intro k v at_k
    rcases getElem?_insert_cases at_k with ⟨rfl, -⟩ | before
    · rw [Entry.due_fill, Entry.due]
      split
      · linarith
      · linarith [last (by simpa using ‹¬e.order.isActive = true›)]
    · exact sane.due_nonneg k v before
  · rw [PositionHolding.updateTrade_activeOrders, sane.active, filterMap_active_fill stored]
  · exact PositionHolding.sound_updateTrade d.holding t
  · intro side part
    rw [(drained side part).1]
    refine (sane.whole side part).sub ?_
    split
    · exact whole
    · exact Whole.zero
  · intro side part
    have less : ((d.holding.updateTrade t).leg side).held part ≤
        (d.holding.leg side).held part := by
      rw [(drained side part).1]
      split <;> linarith
    rw [(drained side part).2, sane.frozen, min_assoc, min_eq_right less]
    simp
  · intro side part
    have before := sane.due side part
    rw [total_erase_of_some _ stored] at before
    rw [total_insert, (drained side part).1, direction, offset, Entry.dueFrom_fill]
    linarith

/-- A new order is due for its whole volume. -/
theorem due_registered (p : OrderRequest × AString) :
    ({ order := registered p } : Entry).due = p.1.volume := by
  have act : (registered p).isActive = true := rfl
  rw [Entry.due, if_pos act]
  exact sub_zero _

theorem dueFrom_registered (part : Part) (side : Side) (p : OrderRequest × AString) :
    Entry.dueFrom part side { order := registered p } =
      if p.1.direction = side.closer ∧ p.1.offset = part.offset then p.1.volume else 0 := by
  rw [Entry.dueFrom, due_registered]
  rfl

variable (enum) in
theorem sane_register (sane : d.Sane) {req : OrderRequest} (net : req.direction ≠ .net)
    {p : OrderRequest × AString} (piece : PositionHolding.Piece req p.1)
    (fresh : d.entries[(registered p).ktOrderid]? = none)
    (room : ∀ side part, total (Entry.dueFrom part side) d.entries +
      (if req.direction = side.closer ∧ p.1.offset = part.offset then p.1.volume else 0) ≤
        (d.holding.leg side).held part) : (d.register enum p).Sane := by
  refine sane_insert (e := { order := registered p }) sane
    (by rw [← piece.direction] at net; exact net) piece.part piece.whole Whole.zero
    (by rw [due_registered]; exact piece.nonneg) ?_
  intro side part
  have room := room side part
  rw [dueFrom_registered, piece.direction, erase_of_none fresh]
  linarith

/-- The pieces of a request are registered one after the other; each takes its share of the
room that the conversion found. -/
theorem sane_foldl_register {req : OrderRequest} (net : req.direction ≠ .net)
    (ps : List (OrderRequest × AString)) (pieces : ∀ p ∈ ps, PositionHolding.Piece req p.1)
    (sane : d.Sane) (distinct : (ps.map fun p => (registered p).ktOrderid).Nodup)
    (fresh : ∀ p ∈ ps, d.entries[(registered p).ktOrderid]? = none)
    (room : ∀ side part, total (Entry.dueFrom part side) d.entries +
      (if req.direction = side.closer then
        PositionHolding.requested part (ps.map Prod.fst) else 0) ≤
        (d.holding.leg side).held part) : (ps.foldl (register enum) d).Sane := by
  induction ps generalizing d with
  | nil => exact sane
  | cons p ps ih =>
    have piece := pieces p (by simp)
    have nonneg : ∀ part, 0 ≤ PositionHolding.requested part (ps.map Prod.fst) := by
      intro part
      apply List.sum_nonneg
      simp only [List.map_map, List.mem_map, Function.comp_apply]
      rintro _ ⟨q, mem, rfl⟩
      split
      · exact (pieces q (by simp [mem])).nonneg
      · exact le_refl 0
    have first : ∀ part, PositionHolding.requested part ((p :: ps).map Prod.fst) =
        (if p.1.offset = part.offset then p.1.volume else 0) +
          PositionHolding.requested part (ps.map Prod.fst) := fun part => by
      simp [PositionHolding.requested]
    have next := sane_register enum sane net piece (fresh p (by simp)) (by
      intro side part
      have room := room side part
      rw [first] at room
      by_cases closer : req.direction = side.closer
      · simp only [closer, if_true, true_and] at room ⊢
        linarith [nonneg part]
      · simpa [closer] using room)
    obtain ⟨new, distinct⟩ := List.nodup_cons.mp distinct
    refine ih (fun q mem => pieces q (by simp [mem])) next distinct ?_ ?_
    · intro q mem
      have other : (registered p).ktOrderid ≠ (registered q).ktOrderid := by
        intro same
        exact new (List.mem_map.mpr ⟨q, mem, same.symm⟩)
      simpa [register, ExtTreeMap.getElem?_insert, other] using fresh q (by simp [mem])
    · intro side part
      have room := room side part
      rw [first] at room
      have held : ((d.register enum p).holding.leg side).held part =
          (d.holding.leg side).held part := PositionHolding.held_updateOrder _ _ _ _ _
      rw [held]
      unfold register
      simp only
      rw [total_insert, dueFrom_registered, piece.direction, erase_of_none (fresh p (by simp))]
      by_cases closer : req.direction = side.closer
      · simp only [closer, if_true, true_and] at room ⊢
        linarith
      · simp only [closer, if_false, false_and] at room ⊢
        linarith

theorem exists_closer {direction : Direction} (net : direction ≠ .net) :
    ∃ side : Side, direction = side.closer := by
  cases direction with
  | long => exact ⟨.short, rfl⟩
  | short => exact ⟨.long, rfl⟩
  | net => exact absurd rfl net

theorem closer_injective {s t : Side} (eq : s.closer = t.closer) : s = t := by
  cases s <;> cases t <;> first | rfl | exact absurd eq (by decide)

theorem sane_close (sane : d.Sane) {req : OrderRequest} {ktOrderids : List AString}
    (wellformed : Wellformed d (.close req ktOrderids)) (caughtUp : d.TradesCaughtUp) :
    (d.step enum (.close req ktOrderids)).Sane := by
  obtain ⟨close, net, volume, whole, length, distinct, fresh⟩ := wellformed
  obtain ⟨side, closer⟩ := exists_closer net
  have leg : d.holding.closedBy req.direction = d.holding.leg side := by
    rw [closer, PositionHolding.closedBy_closer]
  have lots : ∀ part, Whole ((d.holding.leg side).held part) ∧
      Whole ((d.holding.leg side).frozen part) := by
    intro part
    refine ⟨sane.whole side part, ?_⟩
    rw [sane.frozen, total_activeOrders sane]
    refine Whole.min (Whole.sum ?_) (sane.whole side part)
    simp only [List.mem_map, Prod.exists, forall_exists_index, and_imp]
    rintro _ k e mem rfl
    obtain ⟨-, -, -, whole_volume, whole_traded⟩ :=
      sane.order k e (ExtTreeMap.mem_toList_iff_getElem?_eq_some.mp mem)
    unfold Entry.active
    split
    · simp only [Option.elim_some, PositionHolding.closeVolume, OrderData.remaining]
      split
      · exact whole_volume.sub whole_traded
      · exact Whole.zero
    · exact Whole.zero
  obtain ⟨pieces, granted⟩ := PositionHolding.convertOrderRequestShfe_grants close volume whole
    (by rw [leg]; exact (sane.sound side).1) (by rw [leg]; exact lots)
  have firsts : (d.pieces req ktOrderids).map Prod.fst = d.holding.convertOrderRequestShfe req :=
    List.map_fst_zip length.le
  refine sane_foldl_register net (d.pieces req ktOrderids) ?_ sane distinct fresh ?_
  · intro p mem
    exact pieces p.1 (by rw [← firsts]; exact List.mem_map_of_mem mem)
  · intro s part
    rw [firsts]
    by_cases same : s = side
    · subst same
      have room := granted part
      rw [leg] at room
      have frozen := sane.due_le_frozen caughtUp s part
      rw [if_pos closer]
      linarith
    · have other : req.direction ≠ s.closer := by
        rw [closer]
        exact fun eq => same (closer_injective eq).symm
      rw [if_neg other, add_zero]
      exact sane.due s part

/-- Nothing of the leg is frozen, and it holds whole lots. -/
structure IdleLeg (l : Leg) : Prop where
  sound : l.Sound
  whole : ∀ part, Whole (l.held part)
  nonneg : ∀ part, 0 ≤ l.held part
  frozen : ∀ part, l.frozen part = 0

theorem idleLeg_ofContract (contract : ContractData) (side : Side) :
    IdleLeg ((PositionHolding.ofContract contract).leg side) where
  sound := (PositionHolding.sound_ofContract contract side).1
  whole part := by cases side <;> cases part <;> exact Whole.zero
  nonneg part := by cases side <;> cases part <;> exact le_refl 0
  frozen part := by cases side <;> cases part <;> rfl

theorem IdleLeg.snapshot {l : Leg} (idle : IdleLeg l) {volume yd : ℚ} (yd_nonneg : 0 ≤ yd)
    (le : yd ≤ volume) (whole : Whole volume) (whole_yd : Whole yd) :
    IdleLeg (l.snapshot volume yd) := by
  have td_zero : l.tdFrozen = 0 := idle.frozen .today
  have yd_zero : l.ydFrozen = 0 := idle.frozen .yesterday
  constructor
  · exact (Leg.sound_snapshot idle.sound _ _).mpr ⟨by linarith, by linarith⟩
  · intro part
    cases part
    · exact whole.sub whole_yd
    · exact whole_yd
  · intro part
    cases part
    · simpa [Leg.held, Leg.snapshot] using le
    · exact yd_nonneg
  · intro part
    cases part
    · exact td_zero
    · exact yd_zero

/-- Position reports leave a holding without orders idle. -/
theorem idle_foldl_updatePosition {ps : List PositionData} {h : PositionHolding}
    (held : ∀ p ∈ ps, 0 ≤ p.ydVolume ∧ p.ydVolume ≤ p.volume ∧ Whole p.volume ∧ Whole p.ydVolume)
    (empty : h.activeOrders = ∅) (idle : ∀ side, IdleLeg (h.leg side)) :
    (ps.foldl PositionHolding.updatePosition h).activeOrders = ∅ ∧
      ∀ side, IdleLeg ((ps.foldl PositionHolding.updatePosition h).leg side) := by
  induction ps generalizing h with
  | nil => exact ⟨empty, idle⟩
  | cons p ps ih =>
    obtain ⟨yd, le, whole, whole_yd⟩ := held p (by simp)
    refine ih (fun q mem => held q (by simp [mem])) ?_ fun side => ?_
    · rw [← empty]
      unfold PositionHolding.updatePosition
      split <;> rfl
    · rw [PositionHolding.leg_updatePosition]
      split
      · exact (idle side).snapshot yd le whole whole_yd
      · exact idle side

theorem sane_start (contract : ContractData) (ps : List PositionData)
    (held : ∀ p ∈ ps, 0 ≤ p.ydVolume ∧ p.ydVolume ≤ p.volume ∧ Whole p.volume ∧
      Whole p.ydVolume) : (start contract ps).Sane := by
  obtain ⟨empty, idle⟩ := idle_foldl_updatePosition held (h := .ofContract contract) rfl
    (idleLeg_ofContract contract)
  change (start contract ps).holding.activeOrders = ∅ at empty
  change ∀ side, IdleLeg ((start contract ps).holding.leg side) at idle
  have none : (start contract ps).entries = ∅ := rfl
  constructor
  · simp [none]
  · simp [none]
  · rw [empty, none]
    apply ExtTreeMap.ext_getElem?
    simp
  · exact PositionHolding.sound_of_legs fun side => (idle side).sound
  · exact fun side => (idle side).whole
  · intro side part
    rw [(idle side).frozen, empty, total_empty, min_eq_left ((idle side).nonneg part)]
  · intro side part
    rw [none, total_empty]
    exact (idle side).nonneg part

/-- Along every run in which requests are converted with the trades caught up and inactive
orders are final, the closing orders stay within today's and yesterday's volume whenever both
reports of every fill have been handled. -/
theorem covered_when_matched (enum : Enumeration AString OrderData) (contract : ContractData)
    (ps : List PositionData)
    (held : ∀ p ∈ ps, 0 ≤ p.ydVolume ∧ p.ydVolume ≤ p.volume ∧ Whole p.volume ∧
      Whole p.ydVolume)
    (reports : List Report)
    (run : Meets (step enum)
      (fun d r => Wellformed d r ∧ ConvertsCaughtUp d r ∧ InactiveIsFinal d r)
      (start contract ps) reports) :
    Always (step enum) (fun d => d.Matched → d.Covered) (start contract ps) reports := by
  have sane : Always (step enum) Sane (start contract ps) reports := by
    refine always_of_meets ?_ (sane_start contract ps held) run
    rintro d r sane ⟨wellformed, caughtUp, final⟩
    cases r with
    | close req ktOrderids => exact sane_close sane wellformed caughtUp
    | order update => exact sane_order sane wellformed final
    | trade t => exact sane_trade sane wellformed final
  exact sane.mono fun d sane matched => sane.covered matched

section Rebar

def rebar : ContractData :=
  { symbol := "rb2410", exchange := .shfe, product := .futures, pricetick := 1 }

/-- Snapshots of both sides: a long position and nothing short. -/
def longOnly (volume ydVolume : ℚ) : List PositionData :=
  [{ symbol := "rb2410", exchange := .shfe, direction := .long, volume, ydVolume },
    { symbol := "rb2410", exchange := .shfe, direction := .short, volume := 0 }]

def sell (volume : ℚ) : OrderRequest :=
  { symbol := "rb2410", exchange := .shfe, direction := .short, type := .limit, volume
    price := 3500, offset := .close }

def sold (orderid : AString) (volume traded : ℚ) (status : Status) : OrderData :=
  { symbol := "rb2410", exchange := .shfe, orderid, direction := .short, offset := .closeToday
    price := 3500, volume, traded, status, exchangeName := "CTP" }

def soldTrade (orderid : AString) (volume : ℚ) : TradeData :=
  { symbol := "rb2410", exchange := .shfe, orderid, tradeid := "7", direction := .short
    offset := .closeToday, price := 3500, volume, exchangeName := "CTP" }

/-- Ten lots from today are sold, the fill is reported by the order update, and the ten are
sold again before its trade arrives. -/
def soldTwice : List Report :=
  [.close (sell 10) ["CTP.1"], .order (sold "1" 10 10 .allTraded), .close (sell 10) ["CTP.2"],
    .trade (soldTrade "1" 10)]

/-- As `soldTwice`, but the first order is reported cancelled before it is reported filled. -/
def soldAfterCancel : List Report :=
  [.close (sell 10) ["CTP.1"], .order (sold "1" 10 0 .cancelled), .close (sell 10) ["CTP.2"],
    .trade (soldTrade "1" 10), .order (sold "1" 10 10 .allTraded)]

/-- Without the first condition the bound fails, and without the second one as well. -/
theorem soldTwice_not_covered :
    (¬ ∀ (enum : Enumeration AString OrderData) (contract : ContractData)
        (ps : List PositionData) (reports : List Report),
      (∀ p ∈ ps, 0 ≤ p.ydVolume ∧ p.ydVolume ≤ p.volume ∧ Whole p.volume ∧ Whole p.ydVolume) →
      Meets (step enum) Wellformed (start contract ps) reports →
      Always (step enum) (fun d => d.Matched → d.Covered) (start contract ps) reports) ∧
    (¬ ∀ (enum : Enumeration AString OrderData) (contract : ContractData)
        (ps : List PositionData) (reports : List Report),
      (∀ p ∈ ps, 0 ≤ p.ydVolume ∧ p.ydVolume ≤ p.volume ∧ Whole p.volume ∧ Whole p.ydVolume) →
      Meets (step enum) (fun d r => Wellformed d r ∧ ConvertsCaughtUp d r)
        (start contract ps) reports →
      Always (step enum) (fun d => d.Matched → d.Covered) (start contract ps) reports) := by
  constructor
  · intro all
    have last := (all .sorted rebar (longOnly 10 0) soldTwice (by decide +kernel)
      (by decide +kernel)).last (by decide +kernel) .long .today
    exact absurd last (by decide +kernel)
  · intro all
    have last := (all .sorted rebar (longOnly 10 0) soldAfterCancel (by decide +kernel)
      (by decide +kernel)).last (by decide +kernel) .long .today
    exact absurd last (by decide +kernel)

/-- Ten lots, six of them from yesterday: the part sold today is filled before the next
request. -/
theorem covered_rebar :
    Always (step .sorted) (fun d => d.Matched → d.Covered) (start rebar (longOnly 10 6))
      [.close (sell 8) ["CTP.1", "CTP.2"], .trade (soldTrade "1" 4),
        .order (sold "1" 4 4 .allTraded), .close (sell 2) ["CTP.3"]] :=
  covered_when_matched .sorted rebar (longOnly 10 6) (by decide +kernel) _ (by decide +kernel)

end Rebar

end Ledger

end KeenTrader.Engine
