import KeenTrader.Engine.Delivery

/-!
# The order in which volume is frozen

`calculate_frozen` visits the active orders in the order of an unordered map. A `CLOSE` order spills
into yesterday's volume what exceeds today's beside the amounts that have been frozen before it,
while a `CLOSETODAY` order behind it is frozen today as a whole and clamped in the end. The frozen
amounts lie between those that result when the `CLOSE` orders come first and when they come last.
-/

namespace KeenTrader.Engine

open Std (ExtTreeMap)
open Containers

namespace PositionHolding

/-- What an active order with the offset freezes on the leg that it closes. -/
def demand (side : Side) (offset : Offset) (o : OrderData) : ℚ :=
  if o.direction = side.closer ∧ o.offset = offset then o.remaining else 0

/-- The order closes the leg with the plain offset. -/
def isClose (side : Side) (o : OrderData) : Bool :=
  o.direction = side.closer ∧ o.offset = .close

def demands (side : Side) (offset : Offset) (os : List OrderData) : ℚ :=
  (os.map (demand side offset)).sum

section Lists
variable {side : Side} {offset : Offset} {o : OrderData} {os : List OrderData}

@[simp] theorem demands_nil : demands side offset [] = 0 := rfl

@[simp] theorem demands_cons :
    demands side offset (o :: os) = demand side offset o + demands side offset os :=
  List.sum_cons

@[simp] theorem demands_concat :
    demands side offset (os ++ [o]) = demands side offset os + demand side offset o := by
  simp [demands]

variable (side offset) in
theorem demand_nonneg (nonneg : 0 ≤ o.remaining) : 0 ≤ demand side offset o := by
  unfold demand
  split
  · exact nonneg
  · rfl

variable (side offset) in
theorem demands_nonneg (nonneg : ∀ o ∈ os, 0 ≤ o.remaining) : 0 ≤ demands side offset os := by
  refine List.sum_nonneg fun q mem => ?_
  obtain ⟨o, here, rfl⟩ := List.mem_map.mp mem
  exact demand_nonneg side offset (nonneg o here)

/-- An order that closes the leg has one of three offsets. -/
theorem closingDemand_eq (o : OrderData) :
    closingDemand side o =
      demand side .closeToday o + demand side .closeYesterday o + demand side .close o := by
  unfold closingDemand demand
  by_cases closer : o.direction = side.closer
  · cases offset : o.offset <;> simp [closer, Offset.isClosing]
  · simp [closer]

theorem sum_closingDemand (os : List OrderData) :
    (os.map (closingDemand side)).sum =
      demands side .closeToday os + demands side .closeYesterday os + demands side .close os := by
  induction os with
  | nil => simp
  | cons o os ih =>
    rw [List.map_cons, List.sum_cons, ih, closingDemand_eq, demands_cons, demands_cons,
      demands_cons]
    ring

/-- What an order freezes today. -/
theorem freezeLeg_tdFrozen_eq (l : Leg) (o : OrderData) :
    (freezeLeg side l o).tdFrozen =
      if isClose side o then min (l.tdFrozen + demand side .close o) l.td
      else l.tdFrozen + demand side .closeToday o := by
  rw [freezeLeg_tdFrozen]
  unfold isClose demand
  by_cases closer : o.direction = side.closer
  · cases offset : o.offset <;> simp [closer]
  · simp [closer]

theorem foldl_freezeLeg_td (os : List OrderData) (l : Leg) :
    (os.foldl (freezeLeg side) l).td = l.td :=
  (freezeLeg_held side os l).2.1

theorem demand_close_of_other (other : isClose side o = false) : demand side .close o = 0 := by
  unfold demand
  rw [if_neg]
  simpa [isClose] using other

theorem demand_today_of_close (close : isClose side o = true) : demand side .closeToday o = 0 := by
  unfold demand
  rw [if_neg]
  rintro ⟨-, today⟩
  simp [isClose, today] at close

/-! ## Between the two extremes -/

/-- Orders other than `CLOSE` add up. -/
theorem tdFrozen_of_others (others : ∀ o ∈ os, isClose side o = false) (l : Leg) :
    (os.foldl (freezeLeg side) l).tdFrozen = l.tdFrozen + demands side .closeToday os := by
  induction os generalizing l with
  | nil => simp
  | cons o os ih =>
    obtain ⟨here, rest⟩ := List.forall_mem_cons.mp others
    rw [List.foldl_cons, ih rest, freezeLeg_tdFrozen_eq, here, demands_cons, ← add_assoc]
    rfl

/-- `CLOSE` orders add up to what is held today at most. -/
theorem tdFrozen_of_closes (closes : ∀ o ∈ os, isClose side o = true)
    (nonneg : ∀ o ∈ os, 0 ≤ o.remaining) (l : Leg) (capped : os ≠ [] ∨ l.tdFrozen ≤ l.td) :
    (os.foldl (freezeLeg side) l).tdFrozen =
      min (l.tdFrozen + demands side .close os) l.td := by
  induction os generalizing l with
  | nil => simpa using capped
  | cons o os ih =>
    obtain ⟨here, rest⟩ := List.forall_mem_cons.mp closes
    obtain ⟨-, later⟩ := List.forall_mem_cons.mp nonneg
    have more := demands_nonneg side .close later
    have step : (freezeLeg side l o).tdFrozen = min (l.tdFrozen + demand side .close o) l.td := by
      rw [freezeLeg_tdFrozen_eq, if_pos here]
    have capped : (freezeLeg side l o).tdFrozen ≤ (freezeLeg side l o).td := by
      rw [step, freezeLeg_td]
      exact min_le_right _ _
    rw [List.foldl_cons, ih rest later _ (.inr capped), step, freezeLeg_td, demands_cons]
    grind

variable (side) in
/-- Whatever the order of the orders, this much is frozen today in the end. -/
theorem min_tdFrozen (nonneg : ∀ o ∈ os, 0 ≤ o.remaining) (l : Leg) :
    min (os.foldl (freezeLeg side) l).tdFrozen l.td =
      min (l.tdFrozen + (demands side .closeToday os + demands side .close os)) l.td := by
  induction os generalizing l with
  | nil => simp
  | cons o os ih =>
    obtain ⟨here, rest⟩ := List.forall_mem_cons.mp nonneg
    have some := demand_nonneg side .close here
    have more := demands_nonneg side .closeToday rest
    have most := demands_nonneg side .close rest
    have next := ih rest (freezeLeg side l o)
    rw [freezeLeg_td, freezeLeg_tdFrozen_eq] at next
    rw [List.foldl_cons, next, demands_cons, demands_cons]
    cases close : isClose side o with
    | true =>
      rw [demand_today_of_close close]
      grind
    | false =>
      rw [demand_close_of_other close]
      grind

variable (side) in
/-- The most that is frozen today before it is clamped: with the `CLOSE` orders first. -/
theorem tdFrozen_le (nonneg : ∀ o ∈ os, 0 ≤ o.remaining) {l : Leg} (fresh : l.tdFrozen = 0)
    (held : 0 ≤ l.td) :
    (os.foldl (freezeLeg side) l).tdFrozen ≤
      min (demands side .close os) l.td + demands side .closeToday os := by
  induction os using List.reverseRecOn with
  | nil => simp [fresh, held]
  | append_singleton os o ih =>
    have before : ∀ o ∈ os, 0 ≤ o.remaining := fun o mem => nonneg o (by simp [mem])
    have some := demand_nonneg side .close (nonneg o (by simp))
    have today := demands_nonneg side .closeToday before
    specialize ih before
    rw [List.foldl_concat, freezeLeg_tdFrozen_eq, foldl_freezeLeg_td, demands_concat,
      demands_concat]
    cases close : isClose side o with
    | true =>
      rw [demand_today_of_close close]
      grind
    | false =>
      rw [demand_close_of_other close]
      grind

/-! ## The two extremes -/

theorem demands_close_filter (os : List OrderData) :
    demands side .close (os.filter (isClose side)) = demands side .close os := by
  induction os with
  | nil => rfl
  | cons o os ih =>
    rw [List.filter_cons]
    cases close : isClose side o with
    | true => simp [ih]
    | false => simp [ih, demand_close_of_other close]

theorem demands_today_filter (os : List OrderData) :
    demands side .closeToday (os.filter (!isClose side ·)) = demands side .closeToday os := by
  induction os with
  | nil => rfl
  | cons o os ih =>
    rw [List.filter_cons]
    cases close : isClose side o with
    | true => simp [ih, demand_today_of_close close]
    | false => simp [ih]

variable (side) in
/-- The `CLOSE` orders first. -/
def closesFirst (os : List OrderData) : List OrderData :=
  os.filter (isClose side) ++ os.filter (!isClose side ·)

variable (side) in
/-- The `CLOSE` orders last. -/
def closesLast (os : List OrderData) : List OrderData :=
  os.filter (!isClose side ·) ++ os.filter (isClose side)

theorem closesFirst_perm (os : List OrderData) : (closesFirst side os).Perm os :=
  List.filter_append_perm _ _

theorem closesLast_perm (os : List OrderData) : (closesLast side os).Perm os :=
  List.perm_append_comm.trans (closesFirst_perm os)

variable (side) in
theorem tdFrozen_closesFirst (nonneg : ∀ o ∈ os, 0 ≤ o.remaining) {l : Leg}
    (fresh : l.tdFrozen = 0) (held : 0 ≤ l.td) :
    ((closesFirst side os).foldl (freezeLeg side) l).tdFrozen =
      min (demands side .close os) l.td + demands side .closeToday os := by
  rw [closesFirst, List.foldl_append, tdFrozen_of_others (by simp), demands_today_filter,
    tdFrozen_of_closes (by simp) (fun o mem => nonneg o (List.mem_of_mem_filter mem)) l
      (.inr (by rw [fresh]; exact held)),
    demands_close_filter, fresh, zero_add]

variable (side) in
theorem tdFrozen_closesLast (nonneg : ∀ o ∈ os, 0 ≤ o.remaining) {l : Leg}
    (fresh : l.tdFrozen = 0) (some : ∃ o ∈ os, isClose side o = true) :
    ((closesLast side os).foldl (freezeLeg side) l).tdFrozen =
      min (demands side .closeToday os + demands side .close os) l.td := by
  obtain ⟨o, mem, close⟩ := some
  have some : os.filter (isClose side) ≠ [] :=
    List.ne_nil_of_mem (List.mem_filter.mpr ⟨mem, close⟩)
  rw [closesLast, List.foldl_append,
    tdFrozen_of_closes (by simp) (fun o mem => nonneg o (List.mem_of_mem_filter mem)) _ (.inl some),
    tdFrozen_of_others (by simp), demands_today_filter, demands_close_filter, foldl_freezeLeg_td,
    fresh, zero_add]

/-! ## One leg -/

theorem ydFrozen_foldl (os : List OrderData) {l : Leg} (today : l.tdFrozen = 0)
    (yesterday : l.ydFrozen = 0) :
    (os.foldl (freezeLeg side) l).ydFrozen =
      demands side .closeToday os + demands side .closeYesterday os + demands side .close os -
        (os.foldl (freezeLeg side) l).tdFrozen := by
  have sum := foldl_freezeLeg_sum side os l
  rw [sum_closingDemand, today, yesterday] at sum
  linarith

theorem demands_perm {os os' : List OrderData} (perm : os.Perm os') :
    demands side offset os = demands side offset os' :=
  (perm.map _).sum_eq

variable (side) in
/-- The amounts that the active orders freeze on a leg, in the end. -/
def frozenLeg (l : Leg) (os : List OrderData) : Leg :=
  (os.foldl (freezeLeg side) l.clearFrozen).sumPosFrozen

theorem ydFrozen_frozenLeg (l : Leg) (os : List OrderData) :
    (frozenLeg side l os).ydFrozen =
      min (demands side .closeToday os + demands side .closeYesterday os +
        demands side .close os - (os.foldl (freezeLeg side) l.clearFrozen).tdFrozen) l.yd := by
  have yd : (os.foldl (freezeLeg side) l.clearFrozen).yd = l.yd := (freezeLeg_held side os _).2.2
  rw [← ydFrozen_foldl os rfl rfl, ← yd]
  rfl

/-- Two orders of the same orders differ in what is frozen yesterday, if they differ. -/
theorem frozenLeg_eq_iff {os os' : List OrderData} (perm : os.Perm os')
    (nonneg : ∀ o ∈ os, 0 ≤ o.remaining) (l : Leg) :
    frozenLeg side l os = frozenLeg side l os' ↔
      (frozenLeg side l os).ydFrozen = (frozenLeg side l os').ydFrozen := by
  constructor
  · exact fun eq => congrArg Leg.ydFrozen eq
  · intro yesterday
    have nonneg' : ∀ o ∈ os', 0 ≤ o.remaining := fun o mem => nonneg o (perm.mem_iff.mpr mem)
    have today : min (os.foldl (freezeLeg side) l.clearFrozen).tdFrozen l.td =
        min (os'.foldl (freezeLeg side) l.clearFrozen).tdFrozen l.td :=
      calc min (os.foldl (freezeLeg side) l.clearFrozen).tdFrozen l.td
          = min (0 + (demands side .closeToday os + demands side .close os)) l.td :=
            min_tdFrozen side nonneg l.clearFrozen
        _ = min (0 + (demands side .closeToday os' + demands side .close os')) l.td := by
            rw [demands_perm perm, demands_perm perm]
        _ = min (os'.foldl (freezeLeg side) l.clearFrozen).tdFrozen l.td :=
            (min_tdFrozen side nonneg' l.clearFrozen).symm
    obtain ⟨pos, td, yd⟩ := freezeLeg_held side os l.clearFrozen
    obtain ⟨pos', td', yd'⟩ := freezeLeg_held side os' l.clearFrozen
    simp only [frozenLeg, Leg.sumPosFrozen, yd, yd'] at yesterday
    simp only [frozenLeg, Leg.sumPosFrozen, pos, pos', td, td', yd, yd', Leg.mk.injEq, true_and]
    exact ⟨by rw [yesterday]; exact congrArg (· + _) today, yesterday, today⟩

variable (side) in
/-- The order of the orders plays no role: there is no `CLOSE` order, or nothing to close today
beside them, or enough for both, or yesterday's volume is frozen as a whole in any case. -/
def Settled (l : Leg) (os : List OrderData) : Prop :=
  (∀ o ∈ os, isClose side o = false) ∨ demands side .closeToday os = 0 ∨
    demands side .closeToday os + demands side .close os ≤ l.td ∨
    l.yd ≤ demands side .closeYesterday os + max 0 (demands side .close os - l.td)

theorem Settled.perm {os os' : List OrderData} {l : Leg} (settled : Settled side l os)
    (perm : os.Perm os') : Settled side l os' := by
  unfold Settled at settled ⊢
  rw [← demands_perm perm, ← demands_perm perm, ← demands_perm perm]
  refine settled.imp_left fun others o mem => others o (perm.mem_iff.mpr mem)

/-- What is then frozen yesterday is what is frozen with the `CLOSE` orders first. -/
theorem Settled.ydFrozen {l : Leg} (settled : Settled side l os)
    (nonneg : ∀ o ∈ os, 0 ≤ o.remaining) (held : 0 ≤ l.td) :
    (frozenLeg side l os).ydFrozen =
      min (demands side .closeYesterday os + max 0 (demands side .close os - l.td)) l.yd := by
  have least := min_tdFrozen side nonneg l.clearFrozen
  have most := tdFrozen_le side (l := l.clearFrozen) nonneg rfl held
  have today := demands_nonneg side .closeToday nonneg
  have close := demands_nonneg side .close nonneg
  have plain : Leg.tdFrozen l.clearFrozen = 0 := rfl
  have cap : Leg.td l.clearFrozen = l.td := rfl
  rw [ydFrozen_frozenLeg]
  rw [plain, zero_add, cap] at least
  rw [cap] at most
  rcases settled with others | none | room | full
  · have only := tdFrozen_of_others others l.clearFrozen
    have none : demands side .close os = 0 := by
      refine List.sum_eq_zero fun q mem => ?_
      obtain ⟨o, here, rfl⟩ := List.mem_map.mp mem
      exact demand_close_of_other (others o here)
    grind
  · grind
  · grind
  · grind

/-- Where the two extremes agree, all is settled. -/
theorem settled_of_extremes {l : Leg} (nonneg : ∀ o ∈ os, 0 ≤ o.remaining) (held : 0 ≤ l.td)
    (same : frozenLeg side l (closesFirst side os) = frozenLeg side l (closesLast side os)) :
    Settled side l os := by
  by_contra unsettled
  obtain ⟨some, today, short, room⟩ : (∃ o ∈ os, isClose side o = true) ∧
      demands side .closeToday os ≠ 0 ∧
      l.td < demands side .closeToday os + demands side .close os ∧
      demands side .closeYesterday os + max 0 (demands side .close os - l.td) < l.yd := by
    simpa [Settled] using unsettled
  have positive := demands_nonneg side .closeToday nonneg
  have yesterday := congrArg Leg.ydFrozen same
  have first := tdFrozen_closesFirst side (l := l.clearFrozen) nonneg rfl held
  have last := tdFrozen_closesLast side (l := l.clearFrozen) nonneg rfl some
  rw [ydFrozen_frozenLeg, ydFrozen_frozenLeg, first, last,
    demands_perm (closesFirst_perm os), demands_perm (closesFirst_perm os),
    demands_perm (closesFirst_perm os), demands_perm (closesLast_perm os),
    demands_perm (closesLast_perm os), demands_perm (closesLast_perm os)] at yesterday
  have cap : Leg.td l.clearFrozen = l.td := rfl
  rw [cap] at yesterday
  grind

end Lists

/-! ## Both legs -/

/-- The active orders, by their ids. -/
def orders (h : PositionHolding) : List OrderData := Enumeration.sorted.values h.activeOrders

instance {side : Side} {l : Leg} {os : List OrderData} : Decidable (Settled side l os) :=
  inferInstanceAs (Decidable (_ ∨ _ ∨ _ ∨ _))

theorem leg_calculateFrozen_eq (enum : Enumeration AString OrderData) (h : PositionHolding)
    (side : Side) :
    (h.calculateFrozen enum).leg side =
      frozenLeg side (h.leg side) (enum.values h.activeOrders) :=
  leg_calculateFrozen enum h side

/-- Every order of the entries is one in which a container may enumerate them. -/
theorem exists_values {m : ExtTreeMap AString OrderData} {entries : List (AString × OrderData)}
    (perm : entries.Perm m.toList) :
    ∃ enum : Enumeration AString OrderData, enum.values m = entries.map Prod.snd := by
  classical
  refine ⟨⟨fun m' => if m' = m then entries else m'.toList, fun m' => ?_⟩, ?_⟩
  · split
    · rename_i same
      rw [same]
      exact perm
    · exact .refl _
  · simp [Enumeration.values]

theorem exists_closesFirst (side : Side) (h : PositionHolding) :
    ∃ enum : Enumeration AString OrderData,
      enum.values h.activeOrders = closesFirst side h.orders := by
  obtain ⟨enum, eq⟩ := exists_values (List.filter_append_perm
    (isClose side ·.2) h.activeOrders.toList)
  refine ⟨enum, eq.trans ?_⟩
  simp [closesFirst, orders, Enumeration.values, Enumeration.sorted, List.filter_map,
    Function.comp_def]

theorem exists_closesLast (side : Side) (h : PositionHolding) :
    ∃ enum : Enumeration AString OrderData,
      enum.values h.activeOrders = closesLast side h.orders := by
  obtain ⟨enum, eq⟩ := exists_values (List.perm_append_comm.trans (List.filter_append_perm
    (isClose side ·.2) h.activeOrders.toList))
  refine ⟨enum, eq.trans ?_⟩
  simp [closesLast, orders, Enumeration.values, Enumeration.sorted, List.filter_map,
    Function.comp_def]

/-- The amounts that a holding freezes are a matter of its active orders alone. -/
def SameFrozen (h : PositionHolding) : Prop :=
  ∀ enum enum', h.calculateFrozen enum = h.calculateFrozen enum'

theorem remaining_nonneg {h : PositionHolding}
    (filled : ∀ (id : AString) (o : OrderData), h.activeOrders[id]? = some o →
      o.traded ≤ o.volume) (enum : Enumeration AString OrderData) :
    ∀ o ∈ enum.values h.activeOrders, 0 ≤ o.remaining := by
  intro o mem
  obtain ⟨id, found⟩ := (Enumeration.mem_values _).mp mem
  exact sub_nonneg.mpr (filled id o found)

/-- Where all enumerations agree, the two extreme ones do. -/
theorem SameFrozen.settled {h : PositionHolding} (same : h.SameFrozen)
    (held : ∀ side, 0 ≤ (h.leg side).td)
    (filled : ∀ (id : AString) (o : OrderData), h.activeOrders[id]? = some o →
      o.traded ≤ o.volume) (side : Side) :
    Settled side (h.leg side) h.orders := by
  obtain ⟨first, eq⟩ := exists_closesFirst side h
  obtain ⟨last, eq'⟩ := exists_closesLast side h
  have legs := congrArg (leg · side) (same first last)
  simp only [leg_calculateFrozen_eq, eq, eq'] at legs
  exact settled_of_extremes (remaining_nonneg filled .sorted) (held side) legs

/-- Where it is settled, every enumeration freezes what the sums of the orders say. -/
theorem leg_calculateFrozen_of_settled {h : PositionHolding} {side : Side}
    (settled : Settled side (h.leg side) h.orders) (held : 0 ≤ (h.leg side).td)
    (filled : ∀ (id : AString) (o : OrderData), h.activeOrders[id]? = some o →
      o.traded ≤ o.volume) (enum enum' : Enumeration AString OrderData) :
    (h.calculateFrozen enum).leg side = (h.calculateFrozen enum').leg side := by
  have perm := (enum.values_perm h.activeOrders).symm
  have perm' := (enum'.values_perm h.activeOrders).symm
  have nonneg := remaining_nonneg filled enum
  have nonneg' := remaining_nonneg filled enum'
  rw [leg_calculateFrozen_eq, leg_calculateFrozen_eq]
  refine (frozenLeg_eq_iff (perm.symm.trans perm') nonneg _).mpr ?_
  rw [(settled.perm perm).ydFrozen nonneg held, (settled.perm perm').ydFrozen nonneg' held,
    demands_perm perm.symm, demands_perm perm.symm, demands_perm perm'.symm,
    demands_perm perm'.symm]

/-- The frozen amounts do not depend on how the active orders are enumerated, exactly where that is
settled on either leg. -/
theorem sameFrozen_iff {h : PositionHolding} (held : ∀ side, 0 ≤ (h.leg side).td)
    (filled : ∀ (id : AString) (o : OrderData), h.activeOrders[id]? = some o →
      o.traded ≤ o.volume) :
    h.SameFrozen ↔ ∀ side, Settled side (h.leg side) h.orders := by
  constructor
  · exact fun same => same.settled held filled
  · intro settled enum enum'
    refine ext_legs (by simp) (by simp) (by simp) fun side => ?_
    exact leg_calculateFrozen_of_settled (settled side) (held side) filled enum enum'

section Mixed

/-- An active order of one lot that closes a long position. -/
def closesOne (orderid : AString) (offset : Offset) : OrderData :=
  { symbol := "rb", exchange := .shfe, orderid, direction := .short, offset, volume := 1 }

/-- A holding of one lot of today and one of yesterday, with two orders. -/
def mixed (offset : Offset) : PositionHolding :=
  { ktSymbol := "rb.SHFE", exchange := .shfe
    activeOrders := (∅ : ExtTreeMap AString OrderData).insert "1" (closesOne "1" .closeToday)
      |>.insert "2" (closesOne "2" offset)
    long := { pos := 2, yd := 1, td := 1 } }

theorem mixed_held (offset : Offset) (side : Side) :
    0 ≤ ((mixed offset).leg side).td ∧ 0 ≤ ((mixed offset).leg side).yd := by
  cases side
  · exact ⟨zero_le_one, zero_le_one⟩
  · exact ⟨le_rfl, le_rfl⟩

theorem mem_mixed {offset : Offset} {id : AString} {o : OrderData}
    (found : (mixed offset).activeOrders[id]? = some o) :
    o = closesOne "1" .closeToday ∨ o = closesOne "2" offset := by
  simp only [mixed, ExtTreeMap.getElem?_insert] at found
  split_ifs at found
  · exact .inr (Option.some.inj found).symm
  · exact .inl (Option.some.inj found).symm
  · simp at found

theorem mixed_filled {offset : Offset} (id : AString) (o : OrderData)
    (found : (mixed offset).activeOrders[id]? = some o) : 0 ≤ o.traded ∧ o.traded ≤ o.volume := by
  rcases mem_mixed found with rfl | rfl <;> exact ⟨le_rfl, zero_le_one⟩

/-- Orders that name the day they close freeze the same amounts in any order. -/
theorem mixed_same : (mixed .closeYesterday).SameFrozen := by
  refine (sameFrozen_iff (fun side => (mixed_held _ side).1)
    fun id o found => (mixed_filled id o found).2).mpr fun side => ?_
  cases side <;> decide +kernel

/-- A `CLOSE` order beside a `CLOSETODAY` order freezes more or less, as the container has it. -/
theorem mixed_differ :
    ¬ ∀ h : PositionHolding, (∀ side, 0 ≤ (h.leg side).td ∧ 0 ≤ (h.leg side).yd) →
      (∀ (id : AString) (o : OrderData), h.activeOrders[id]? = some o → o.offset.isClosing) →
      (∀ (id : AString) (o : OrderData), h.activeOrders[id]? = some o →
        0 ≤ o.traded ∧ o.traded ≤ o.volume) → h.SameFrozen := by
  intro all
  have closing (id : AString) (o : OrderData)
      (found : (mixed .close).activeOrders[id]? = some o) : o.offset.isClosing = true := by
    rcases mem_mixed found with rfl | rfl <;> rfl
  have same := all (mixed .close) (mixed_held _) closing mixed_filled
  have settled := same.settled (fun side => (mixed_held _ side).1)
    (fun id o found => (mixed_filled id o found).2) .long
  exact absurd settled (by decide +kernel)

end Mixed

end PositionHolding

end KeenTrader.Engine
