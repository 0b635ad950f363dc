import KeenTrader.Library.Runs
import KeenTrader.Library.Containers
import KeenTrader.Engine.Precision
import KeenTrader.Exchange.Binance

/-!
# The legs of a position on Binance

In hedge mode the venue keeps a long and a short leg of each instrument, and the side and the
position side of an order say what it does to which leg. The legs that the placed orders lead to
are compared with the ones that their directions and offsets stand for.
-/

namespace KeenTrader.Exchange.BinanceExchange

open Std (ExtTreeMap)
open KeenTrader.Engine Containers Runs Binance

/-! ## The venue -/

/-- The long and the short leg of an instrument, or how an order changes them. -/
abbrev Legs := ℚ × ℚ

/-- The value of a parameter, and an empty text where there is none. -/
def paramAt (params : Json.Value) (key : AString) : AString :=
  match params.get? key with
  | some (.string text) => text
  | _ => ""

/-- The rule of hedge mode, for an order that is filled in full. -/
def legChange (side positionSide : AString) (quantity : ℚ) : Legs :=
  match side, positionSide with
  | "BUY", "LONG" => (quantity, 0)
  | "SELL", "LONG" => (-quantity, 0)
  | "SELL", "SHORT" => (0, quantity)
  | "BUY", "SHORT" => (0, -quantity)
  | _, _ => 0

/-- What a packet does to the legs of an instrument. -/
def filled (name : AString) : Effect → Legs
  | .packet packet =>
    match packet.get? "method", packet.get? "params" with
    | some (.string "order.place"), some params =>
      if paramAt params "symbol" = name then
        legChange (paramAt params "side") (paramAt params "positionSide")
          (atof (paramAt params "quantity"))
      else 0
    | _, _ => 0
  | _ => 0

/-- The legs that the effects lead to. -/
def legs (name : AString) (trace : List Effect) : Legs := (trace.map (filled name)).sum

/-! ## What orders stand for -/

/-- What an order stands for: opening adds to the leg of its direction, and closing takes from
the other one. -/
def intended (req : OrderRequest) : Legs :=
  match req.direction, req.offset with
  | .long, .opening => (req.volume, 0)
  | .short, .close => (-req.volume, 0)
  | .short, .opening => (0, req.volume)
  | .long, .close => (0, -req.volume)
  | _, _ => 0

/-- What an order stands for on one instrument. -/
def intendedOn (s : BinanceExchange) (name : AString) (req : OrderRequest) : Legs :=
  if (s.getContractBySymbol req.symbol).map ContractData.name = some name then intended req else 0

/-- A market or limit order that opens or closes a number of smallest volumes. -/
structure Regular (s : BinanceExchange) (req : OrderRequest) (contract : ContractData) : Prop where
  known : s.getContractBySymbol req.symbol = some contract
  type : req.type = .market ∨ req.type = .limit
  direction : req.direction = .long ∨ req.direction = .short
  offset : req.offset = .opening ∨ req.offset = .close
  nonneg : 0 ≤ req.volume
  multiple : ∃ k : ℕ, req.volume = k * contract.minVolume

/-- The order opens, and its volume survives the conversions on its way to the venue. -/
structure Exact (req : OrderRequest) (contract : ContractData) : Prop where
  opens : req.offset = .opening ∨ req.volume = 0
  fits : ∃ k : ℕ, k < 2 ^ 31 ∧ req.volume = k * contract.minVolume
  digits : FewDigits 6 req.volume

variable {s : BinanceExchange} {req : OrderRequest} {contract : ContractData}

/-- The quantity that the venue reads is the volume of the order exactly if it counts smallest
volumes that fit, and has few digits. -/
theorem quantity_eq_iff (regular : Regular s req contract) :
    atof (printG 6 (roundToStep req.volume contract.minVolume)) = req.volume ↔
      (∃ k : ℕ, k < 2 ^ 31 ∧ req.volume = k * contract.minVolume) ∧ FewDigits 6 req.volume := by
  obtain ⟨k, multiple⟩ := regular.multiple
  have nonneg := regular.nonneg
  unfold roundToStep
  by_cases pos : 0 < contract.minVolume
  · rw [if_pos pos]
    by_cases fits : k < 2 ^ 31
    · have rounded : roundTo req.volume contract.minVolume = req.volume := by
        have := roundTo_multiple (n := k) contract.minVolume (by omega)
          (by exact_mod_cast fits) pos
        rw [multiple]
        exact_mod_cast this
      rw [rounded, atof_printG_eq_iff (by decide)]
      exact (and_iff_right ⟨k, fits, multiple⟩).symm
    · have rounded : roundTo req.volume contract.minVolume = -2 ^ 31 * contract.minVolume := by
        have count : req.volume / contract.minVolume = ((k : ℤ) : ℚ) := by
          rw [multiple, mul_div_cancel_right₀ _ pos.ne', Int.cast_natCast]
        rw [roundTo, count, cround_intCast, toInt_intCast, if_neg (by omega)]
        norm_num
      have below : -2 ^ 31 * contract.minVolume < 0 := by linarith
      refine iff_of_false (fun same => ?_) ?_
      · have nonpos := atof_printG_nonpos (p := 6) (by decide) below
        rw [← rounded, same, multiple] at nonpos
        have : (0 : ℚ) < k * contract.minVolume := by
          have : 0 < k := by omega
          positivity
        linarith
      · rintro ⟨⟨k', fits', multiple'⟩, -⟩
        rw [multiple, mul_left_inj' pos.ne', Nat.cast_inj] at multiple'
        omega
  · have zero : req.volume = 0 := by
      have : (k : ℚ) * contract.minVolume ≤ 0 :=
        mul_nonpos_of_nonneg_of_nonpos (by positivity) (not_lt.mp pos)
      linarith
    rw [if_neg pos, atof_printG_eq_iff (by decide)]
    exact (and_iff_right ⟨0, by norm_num, by simp [zero]⟩).symm

/-! ## The packet of an order -/

theorem paramAt_paramsJson (params : Params) (key : AString) :
    paramAt (paramsJson params) key = (params[key]?).getD "" := by
  have lookup (entries : List (AString × AString)) :
      (entries.map fun entry => (entry.1, Json.Value.string entry.2)).lookup key =
        (entries.lookup key).map Json.Value.string := by
    induction entries with
    | nil => rfl
    | cons entry entries ih =>
      rw [List.map_cons, List.lookup_cons, List.lookup_cons, ih]
      cases key == entry.1 <;> rfl
  have found : (paramsJson params).get? key = (params[key]?).map Json.Value.string :=
    (lookup _).trans (by rw [lookup_toList])
  unfold paramAt
  rw [found]
  cases params[key]? <;> rfl

/-- The parameters that name the instrument, the leg and the quantity of a market or limit
order. -/
theorem params_order (hedge : s.hedgeMode = true) (regular : Regular s req contract)
    (hmac : AString → AString → List UInt8) (moment : Moment) (orderid : AString) :
    let params := paramsJson (sign hmac s.secret moment (s.orderParams req contract orderid))
    paramAt params "symbol" = contract.name ∧
      paramAt params "side" = (if req.direction = .long then "BUY" else "SELL") ∧
      paramAt params "positionSide" = (if req.direction = .long then "LONG" else "SHORT") ∧
      paramAt params "quantity" = printG 6 (roundToStep req.volume contract.minVolume) := by
  have signed (key : AString) (other : key ≠ "timestamp" ∧ key ≠ "signature") (params : Params) :
      (sign hmac s.secret moment params)[key]? = params[key]? := by
    simp [sign, ExtTreeMap.getElem?_insert, other.1.symm, other.2.symm]
  have side : (directionVt2binance.lookup req.direction).getD "BUY" =
      if req.direction = .long then "BUY" else "SELL" := by
    rcases regular.direction with eq | eq <;> rw [eq] <;> rfl
  simp only [paramAt_paramsJson, ne_eq, not_false_eq_true, and_self, signed, String.reduceEq]
  unfold orderParams
  rw [side]
  rcases regular.type with type | type
  · have market : (ordertypeVt2binance.lookup OrderType.market).getD "LIMIT" = "MARKET" := rfl
    simp [type, market, hedge, ExtTreeMap.getElem_insert, ExtTreeMap.ofList_eq_insertMany_empty,
      ExtTreeMap.insertMany_cons]
  · have limit : (ordertypeVt2binance.lookup OrderType.limit).getD "LIMIT" = "LIMIT" := rfl
    simp [type, limit, hedge, ExtTreeMap.getElem_insert, ExtTreeMap.ofList_eq_insertMany_empty,
      ExtTreeMap.insertMany_cons]

/-- An order goes to the leg of its direction, and adds to it. -/
theorem sendOrder_spec (hedge : s.hedgeMode = true) (regular : Regular s req contract)
    (hmac : AString → AString → List UInt8) (moment : Moment) :
    ∃ order packet, (s.sendOrder hmac req moment).2.trace =
        s.trace ++ [.order order, .packet packet] ∧
      ∀ name, filled name (.packet packet) =
        if contract.name = name then
          legChange (if req.direction = .long then "BUY" else "SELL")
            (if req.direction = .long then "LONG" else "SHORT")
            (atof (printG 6 (roundToStep req.volume contract.minVolume)))
        else 0 := by
  obtain ⟨symbol, side, positionSide, quantity⟩ :=
    params_order hedge regular hmac moment (s.newOrderid moment)
  have sent : (s.sendOrder hmac req moment).2.trace = s.trace ++
      [.order (req.createOrderData (s.newOrderid moment) exchangeName),
       .packet (.object
        [("id", .int (s.reqid + 1)), ("method", .string "order.place"),
         ("params", paramsJson (sign hmac s.secret moment
          (s.orderParams req contract (s.newOrderid moment))))])] := by
    unfold sendOrder
    rw [regular.known]
    simp [onOrder, emit, register, sendPacket]
    rfl
  refine ⟨_, _, sent, fun name => ?_⟩
  simp only [filled, Json.Value.get?, List.lookup, beq_self_eq_true, String.reduceBEq]
  rw [symbol, side, positionSide, quantity]

/-- What the venue is told is what the order stands for exactly if the order is exact. -/
theorem legChange_eq_iff (regular : Regular s req contract) :
    legChange (if req.direction = .long then "BUY" else "SELL")
        (if req.direction = .long then "LONG" else "SHORT")
        (atof (printG 6 (roundToStep req.volume contract.minVolume))) = intended req ↔
      Exact req contract := by
  have exact_iff : Exact req contract ↔ (req.offset = .opening ∨ req.volume = 0) ∧
      atof (printG 6 (roundToStep req.volume contract.minVolume)) = req.volume := by
    rw [quantity_eq_iff regular]
    exact ⟨fun exact => ⟨exact.opens, exact.fits, exact.digits⟩,
      fun ⟨opens, fits, digits⟩ => ⟨opens, fits, digits⟩⟩
  rw [exact_iff]
  generalize atof (printG 6 (roundToStep req.volume contract.minVolume)) = quantity
  unfold intended
  rcases regular.direction with direction | direction <;>
    rcases regular.offset with offset | offset <;>
    simp only [direction, offset, legChange, reduceCtorEq, ↓reduceIte, Prod.mk.injEq] <;>
    grind

/-! ## Sequences of orders -/

section Sequences
variable (hmac : AString → AString → List UInt8)

def place (s : BinanceExchange) (order : OrderRequest × Moment) : BinanceExchange :=
  (s.sendOrder hmac order.1 order.2).2

/-- The legs that the orders from `s` to `t` lead to. -/
def legsSince (s t : BinanceExchange) (name : AString) : Legs :=
  legs name (t.trace.drop s.trace.length)

/-- The legs that the orders stand for. -/
def intendedLegs (s : BinanceExchange) (orders : List (OrderRequest × Moment)) (name : AString) :
    Legs :=
  (orders.map fun order => s.intendedOn name order.1).sum

/-- What the venue is told of an order, on one instrument. -/
def toldOn (s : BinanceExchange) (name : AString) (req : OrderRequest) : Legs :=
  match s.getContractBySymbol req.symbol with
  | some contract =>
    if contract.name = name then
      legChange (if req.direction = .long then "BUY" else "SELL")
        (if req.direction = .long then "LONG" else "SHORT")
        (atof (printG 6 (roundToStep req.volume contract.minVolume)))
    else 0
  | none => 0

end Sequences

variable {hmac : AString → AString → List UInt8}

theorem legs_append (name : AString) (first second : List Effect) :
    legs name (first ++ second) = legs name first + legs name second := by
  simp [legs]

variable (hmac) in
theorem place_keeps (s : BinanceExchange) (order : OrderRequest × Moment) :
    (place hmac s order).hedgeMode = s.hedgeMode ∧
      (place hmac s order).symbolContractMap = s.symbolContractMap := by
  unfold place sendOrder
  split <;> exact ⟨rfl, rfl⟩

variable (hmac) in
/-- The orders of a sequence add up. -/
theorem foldl_place (hedge : s.hedgeMode = true) (orders : List (OrderRequest × Moment))
    (regular : ∀ order ∈ orders, ∃ contract, Regular s order.1 contract) (name : AString) :
    ∃ new, (orders.foldl (place hmac) s).trace = s.trace ++ new ∧
      legs name new = (orders.map fun order => s.toldOn name order.1).sum := by
  refine exists_appended
    (P := fun t => t.hedgeMode = true ∧ t.symbolContractMap = s.symbolContractMap)
    rfl (legs_append name) (fun t ⟨hedge, contracts⟩ order mem => ?_) ⟨hedge, rfl⟩
  obtain ⟨contract, here⟩ := regular order mem
  have known : t.getContractBySymbol order.1.symbol = some contract := by
    rw [getContractBySymbol, contracts]
    exact here.known
  obtain ⟨o, packet, trace, change⟩ := sendOrder_spec hedge { here with known } hmac order.2
  obtain ⟨hedge', contracts'⟩ := place_keeps hmac t order
  refine ⟨⟨hedge'.trans hedge, contracts'.trans contracts⟩, [.order o, .packet packet], trace, ?_⟩
  have first : s.toldOn name order.1 = filled name (.packet packet) := by
    rw [change name, toldOn, here.known]
  rw [first]
  simp [legs, filled]

theorem toldOn_eq_iff (regular : Regular s req contract) :
    (∀ name, s.toldOn name req = s.intendedOn name req) ↔ Exact req contract := by
  unfold toldOn intendedOn
  rw [regular.known]
  simp only [Option.map_some, Option.some.injEq]
  rw [← legChange_eq_iff regular]
  constructor
  · intro all
    simpa using all contract.name
  · intro same name
    rw [same]

/-- After every one of the orders, filled in full, the legs of every instrument are what the
orders stand for exactly if each order opens, and its volume survives the way to the venue. -/
theorem legs_follow_iff (hedge : s.hedgeMode = true) (orders : List (OrderRequest × Moment))
    (regular : ∀ order ∈ orders, ∃ contract, Regular s order.1 contract) :
    (∀ done, done <+: orders → ∀ name,
      legsSince s (done.foldl (place hmac) s) name = intendedLegs s done name) ↔
      ∀ order ∈ orders, ∃ contract, Regular s order.1 contract ∧ Exact order.1 contract := by
  have sums (name : AString) : (∀ done, done <+: orders →
      legsSince s (done.foldl (place hmac) s) name = intendedLegs s done name) ↔
      ∀ order ∈ orders, s.toldOn name order.1 = s.intendedOn name order.1 := by
    rw [← prefix_sums_iff]
    refine forall₂_congr fun done pre => ?_
    obtain ⟨new, trace, told⟩ := foldl_place hmac hedge done
      (fun order mem => regular order (pre.subset mem)) name
    rw [legsSince, trace, List.drop_left, told, intendedLegs]
  constructor
  · intro all order mem
    obtain ⟨contract, here⟩ := regular order mem
    exact ⟨contract, here, (toldOn_eq_iff here).mp fun name =>
      (sums name).mp (fun done pre => all done pre name) order mem⟩
  · intro exact done pre name
    refine (sums name).mpr (fun order mem => ?_) done pre
    obtain ⟨contract, here, exact⟩ := exact order mem
    exact (toldOn_eq_iff here).mpr exact name

section OpenAndClose

def ethUsdt : ContractData :=
  { symbol := "ETHUSDT_SWAP", exchange := .binance, name := "ETHUSDT", product := .swap
    pricetick := 1 / 100, exchangeName := "BINANCE" }

/-- In hedge mode, with one instrument. -/
def hedged : BinanceExchange := (connected "" "" true).onContract ethUsdt

def marketOrder (direction : Direction) (offset : Offset) (volume : ℚ) : OrderRequest × Moment :=
  ({ symbol := "ETHUSDT_SWAP", exchange := .binance, direction, type := .market, volume, offset },
    { digits := "", seconds := 0 })

theorem known_ethUsdt : hedged.getContractBySymbol "ETHUSDT_SWAP" = some ethUsdt := by
  decide +kernel

theorem regular_marketOrder {direction : Direction} {offset : Offset} (volume : ℕ)
    (directed : direction = .long ∨ direction = .short)
    (opens : offset = .opening ∨ offset = .close) :
    Regular hedged (marketOrder direction offset volume).1 ethUsdt where
  known := known_ethUsdt
  type := .inl rfl
  direction := directed
  offset := opens
  nonneg := by simp [marketOrder]
  multiple := ⟨volume, by simp [marketOrder, ethUsdt]⟩

theorem exact_opening (direction : Direction) {volume : ℕ} (few : volume < 10 ^ 6) :
    Exact (marketOrder direction .opening volume).1 ethUsdt where
  opens := .inl rfl
  fits := ⟨volume, by omega, by simp [marketOrder, ethUsdt]⟩
  digits := ⟨volume, few, 0, by simp [marketOrder]⟩

/-- Both legs are opened, and the long one once more. -/
def openings : List (OrderRequest × Moment) :=
  [marketOrder .long .opening (2 : ℕ), marketOrder .short .opening (1 : ℕ),
    marketOrder .long .opening (3 : ℕ)]

theorem opening_follows :
    legsSince hedged (openings.foldl (place fun _ _ => []) hedged) "ETHUSDT" =
      intendedLegs hedged openings "ETHUSDT" := by
  have each : ∀ order ∈ openings, Regular hedged order.1 ethUsdt ∧ Exact order.1 ethUsdt := by
    refine List.forall_mem_cons.mpr ⟨⟨?_, ?_⟩, List.forall_mem_cons.mpr
      ⟨⟨?_, ?_⟩, List.forall_mem_singleton.mpr ⟨?_, ?_⟩⟩⟩
    · exact regular_marketOrder 2 (.inl rfl) (.inl rfl)
    · exact exact_opening .long (by norm_num)
    · exact regular_marketOrder 1 (.inr rfl) (.inl rfl)
    · exact exact_opening .short (by norm_num)
    · exact regular_marketOrder 3 (.inl rfl) (.inl rfl)
    · exact exact_opening .long (by norm_num)
  exact (legs_follow_iff rfl openings fun order mem => ⟨_, (each order mem).1⟩).mpr
    (fun order mem => ⟨_, each order mem⟩) _ (List.prefix_refl _) _

/-- Selling one of two opens a short leg of one. -/
theorem close_opens :
    ¬ ∀ (hmac : AString → AString → List UInt8) (s : BinanceExchange), s.hedgeMode = true →
      ∀ orders : List (OrderRequest × Moment),
        (∀ order ∈ orders, ∃ contract, Regular s order.1 contract) →
        (∀ done, done <+: orders → ∀ name, 0 ≤ intendedLegs s done name) →
        ∀ name, legsSince s (orders.foldl (place hmac) s) name = intendedLegs s orders name := by
  intro all
  have same := all (fun _ _ => []) hedged rfl
    [marketOrder .long .opening (2 : ℕ), marketOrder .short .close (1 : ℕ)] ?_ ?_ "ETHUSDT"
  · exact absurd same (by decide +kernel)
  · simp only [List.mem_cons, List.not_mem_nil, or_false, forall_eq_or_imp, forall_eq]
    exact ⟨⟨_, regular_marketOrder 2 (.inl rfl) (.inl rfl)⟩,
      ⟨_, regular_marketOrder 1 (.inr rfl) (.inr rfl)⟩⟩
  · intro done pre name
    have shown (direction : Direction) (offset : Offset) (volume : ℚ) :
        hedged.intendedOn name (marketOrder direction offset volume).1 =
          if "ETHUSDT" = name then intended (marketOrder direction offset volume).1 else 0 := by
      unfold intendedOn
      rw [marketOrder, known_ethUsdt]
      simp [ethUsdt]
    simp only [List.prefix_cons_iff, List.prefix_nil] at pre
    unfold intendedLegs
    obtain rfl | ⟨_, rfl, rfl | ⟨_, rfl, rfl⟩⟩ := pre
    · simp
    · simp only [List.map_cons, List.map_nil, List.sum_singleton, shown]
      split
      · decide +kernel
      · exact le_rfl
    · simp only [List.map_cons, List.map_nil, List.sum_cons, List.sum_nil, shown]
      split
      · decide +kernel
      · simp

end OpenAndClose

end KeenTrader.Exchange.BinanceExchange
