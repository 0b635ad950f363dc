import KeenTrader.Engine.Oms
import KeenTrader.Engine.Opening

/-!
# The bound conversion

`TradeEngine::convert_order_request` is bound to the function of `OmsEngine` with a 4 where the
placeholder of its last argument should stand. So it converts for net whatever its caller asks for.
A caller that asks for neither flag gets what it asked for only where the net conversion happens to
return the same requests.
-/

namespace KeenTrader.Engine

open Containers

namespace PositionHolding

variable {h : PositionHolding} {leg : Leg} {req : OrderRequest}

/-- The net conversion returns the request itself: it opens and nothing can be closed, or it closes
whole lots that are available. -/
def UnchangedByNet (leg : Leg) (req : OrderRequest) : Prop :=
  let available := leg.pos - leg.posFrozen
  (available ≤ 0 ∧ req.offset = .opening ∧ 0 < req.volume) ∨
    (0 < available ∧ req.offset = .close ∧ req.volume ≤ available ∧ FitsInt req.volume)

/-- The net conversion divides the request as the one for SHFE does: it opens and nothing can be
closed, it asks for nothing and nothing is available, or it closes whole lots that are available,
today's before yesterday's, and today's availability is not a fraction of a lot. -/
def DividedByNet (leg : Leg) (req : OrderRequest) : Prop :=
  let position := toInt (leg.pos - leg.posFrozen)
  let today := leg.td - leg.tdFrozen
  let yesterday := leg.yd - leg.ydFrozen
  if req.offset = .opening then today ≤ 0 ∧ yesterday ≤ 0 ∧ 0 < req.volume
  else
    (position < req.volume ∧ req.volume ≤ 0 ∧ today ≤ 0) ∨
    (req.volume ≤ position ∧ req.volume ≤ toInt today ∧ 0 < today ∧ FitsInt req.volume) ∨
    (req.volume ≤ position ∧ toInt today < req.volume ∧ 0 ≤ toInt today ∧
      (0 < toInt today ∨ today ≤ 0) ∧ FitsInt (req.volume - toInt today) ∧
      req.volume - toInt today ≤ yesterday)

/-- The net conversion returns what the conversion without flags returns. -/
def NetAlike (h : PositionHolding) (req : OrderRequest) : Prop :=
  if req.exchange.closesYesterday then DividedByNet (h.closedBy req.direction) req
  else UnchangedByNet (h.closedBy req.direction) req

instance : Decidable (UnchangedByNet leg req) := inferInstanceAs (Decidable (_ ∨ _))

instance : Decidable (DividedByNet leg req) := inferInstanceAs (Decidable (ite _ _ _))

instance : Decidable (NetAlike h req) := inferInstanceAs (Decidable (ite _ _ _))

theorem eq_self_iff {offset : Offset} {volume : ℚ} :
    { req with offset, volume } = req ↔ req.offset = offset ∧ volume = req.volume := by
  cases req
  simp [and_comm, eq_comm]

/-- The whole of a volume is taken from what is available. -/
theorem toInt_min_eq_iff {available : ℚ} (some : 0 < available) (volume : ℚ) :
    (toInt (min available volume) : ℚ) = volume ↔ volume ≤ available ∧ FitsInt volume := by
  rcases le_or_gt volume available with enough | less
  · rw [min_eq_right enough, toInt_eq_iff, and_iff_right enough]
  · have cut := toInt_le_of_nonneg some.le
    rw [min_eq_left less.le]
    constructor
    · intro eq
      linarith
    · rintro ⟨enough, -⟩
      linarith

/-- The whole lots that are available are taken, where the volume exceeds them. -/
theorem toInt_min_of_exceeds {available volume : ℚ} (some : 0 < toInt available)
    (exceeds : toInt available < volume) : toInt (min available volume) = toInt available := by
  have floor : ⌊available⌋ = toInt available := by
    have cut := toInt_eq_of_nonneg some.le
    omega
  have fits := toInt_lt available
  have below := Int.lt_floor_add_one available
  have above := Int.floor_le available
  rw [floor] at below above
  have same : ⌊min available volume⌋ = toInt available :=
    Int.floor_eq_iff.mpr ⟨le_min above exceeds.le, (min_le_left _ _).trans_lt below⟩
  have nonneg : (0 : ℚ) ≤ toInt available := by exact_mod_cast some.le
  rcases toInt_cases (min available volume) with ⟨-, cut⟩ | ⟨negative, -⟩
  · rw [cut, same, if_pos fits]
  · exact absurd (le_min (nonneg.trans above) (nonneg.trans exceeds.le)) negative.not_ge

theorem closePart_of_pos {offset : Offset} {available left : ℚ} (some : 0 < available) :
    closePart req offset available left =
      ([{ req with offset, volume := (toInt (min available left) : ℚ) }],
        left - toInt (min available left)) :=
  if_pos some

theorem closePart_of_nonpos {offset : Offset} {available left : ℚ} (none : available ≤ 0) :
    closePart req offset available left = ([], left) :=
  if_neg none.not_gt

theorem net_eq_self_iff (elsewhere : req.exchange.closesYesterday = false) :
    h.convertOrderRequestNet req = [req] ↔ UnchangedByNet (h.closedBy req.direction) req := by
  unfold convertOrderRequestNet UnchangedByNet
  generalize h.closedBy req.direction = leg
  simp only [elsewhere, Bool.false_eq_true, if_false]
  generalize leg.pos - leg.posFrozen = available
  rcases le_or_gt available 0 with none | some
  · rw [closePart_of_nonpos none]
    by_cases asks : 0 < req.volume
    · simp [asks, none, none.not_gt, eq_self_iff]
    · simp [asks, none.not_gt]
  · rw [closePart_of_pos some]
    simp only [List.singleton_append, some.not_ge, some, List.cons_eq_cons]
    rw [eq_self_iff, toInt_min_eq_iff some]
    constructor
    · rintro ⟨⟨close, enough, fits⟩, -⟩
      exact .inr ⟨trivial, close, enough, fits⟩
    · rintro (⟨⟨⟩, -⟩ | ⟨-, close, enough, fits⟩)
      have taken := (toInt_min_eq_iff some _).mpr ⟨enough, fits⟩
      exact ⟨⟨close, enough, fits⟩, by rw [taken, sub_self, if_neg (lt_irrefl _)]⟩

/-- What today's volume leaves is closed as a whole by yesterday's. -/
theorem closeRest_eq_iff {yesterday left volume : ℚ} (asks : 0 < left) (enough : left ≤ volume) :
    (closePart req .closeYesterday yesterday left).1 ++
        (if 0 < (closePart req .closeYesterday yesterday left).2 then
          [{ req with
             offset := .opening, volume := (closePart req .closeYesterday yesterday left).2 }]
        else []) =
      [{ req with offset := .closeYesterday, volume }] ↔
      volume = left ∧ FitsInt left ∧ left ≤ yesterday := by
  rcases le_or_gt yesterday 0 with gone | some
  · have short : ¬left ≤ yesterday := by linarith
    simp [closePart_of_nonpos gone, asks, short]
  · have cut := toInt_le_of_nonneg (le_min some.le asks.le)
    have taken := toInt_min_eq_iff some left
    rw [closePart_of_pos some]
    simp only [List.singleton_append, List.cons_eq_cons, OrderRequest.mk.injEq, true_and, and_true]
    constructor
    · rintro ⟨eq, -⟩
      have same : volume = left := le_antisymm (eq ▸ cut.trans (min_le_right _ _)) enough
      exact ⟨same, (taken.mp (eq.trans same)).symm⟩
    · rintro ⟨rfl, fits, enough⟩
      have eq := taken.mpr ⟨enough, fits⟩
      exact ⟨eq, by rw [eq, sub_self, if_neg (lt_irrefl _)]⟩

theorem toInt_nonpos {q : ℚ} (nonpos : q ≤ 0) : toInt q ≤ 0 := by
  by_contra! positive
  have cut := toInt_le positive
  have some : (0 : ℚ) < toInt q := by exact_mod_cast positive
  linarith

/-- The net conversion on an exchange that tells today's volume from yesterday's. -/
def netParts (req : OrderRequest) (today yesterday : ℚ) : List OrderRequest :=
  let td := closePart req .closeToday today req.volume
  let yd := if 0 < td.2 then closePart req .closeYesterday yesterday td.2 else ([], td.2)
  td.1 ++ yd.1 ++ if 0 < yd.2 then [{ req with offset := .opening, volume := yd.2 }] else []

section NetParts
variable {today yesterday : ℚ}

theorem netParts_opening_iff (opens : req.offset = .opening) :
    netParts req today yesterday = [req] ↔ today ≤ 0 ∧ yesterday ≤ 0 ∧ 0 < req.volume := by
  simp only [netParts]
  rcases le_or_gt today 0 with spent | some
  · rw [closePart_of_nonpos spent]
    by_cases asks : 0 < req.volume
    · rcases le_or_gt yesterday 0 with gone | left
      · rw [closePart_of_nonpos gone]
        simp [asks, spent, gone, eq_self_iff, opens]
      · rw [closePart_of_pos left]
        simp [asks, left.not_ge, eq_self_iff, opens]
    · simp [asks]
  · rw [closePart_of_pos some]
    simp [some.not_ge, eq_self_iff, opens]

theorem netParts_nil_iff : netParts req today yesterday = [] ↔ req.volume ≤ 0 ∧ today ≤ 0 := by
  simp only [netParts]
  rcases le_or_gt today 0 with spent | some
  · rw [closePart_of_nonpos spent]
    by_cases asks : 0 < req.volume
    · rcases le_or_gt yesterday 0 with gone | left
      · simp [asks, closePart_of_nonpos gone, asks.not_ge]
      · simp [asks, closePart_of_pos left, asks.not_ge]
    · simp [asks, spent, not_lt.mp asks]
  · simp [closePart_of_pos some, some.not_ge]

/-- Today's volume closes the request as a whole. -/
theorem netParts_today_iff (whole : req.volume ≤ toInt today) :
    netParts req today yesterday = [{ req with offset := .closeToday }] ↔
      0 < today ∧ FitsInt req.volume := by
  simp only [netParts]
  rcases le_or_gt today 0 with spent | some
  · have nothing : ¬0 < req.volume := by
      have cut : (toInt today : ℚ) ≤ 0 := by exact_mod_cast toInt_nonpos spent
      linarith
    simp [closePart_of_nonpos spent, nothing, spent.not_gt]
  · have within := whole.trans (toInt_le_of_nonneg some.le)
    have taken := toInt_min_eq_iff some req.volume
    rw [and_iff_right within] at taken
    rw [closePart_of_pos some, and_iff_right some, ← taken]
    simp only [List.cons_append, List.cons_eq_cons, OrderRequest.mk.injEq, true_and, and_true]
    refine ⟨And.left, fun eq => ⟨eq, ?_⟩⟩
    simp [eq]

/-- Today's lots are closed first, and yesterday's volume closes the rest. -/
theorem netParts_split_iff (exceeds : toInt today < req.volume) :
    netParts req today yesterday =
        (if 0 < toInt today then [{ req with offset := .closeToday, volume := toInt today }]
          else []) ++
        [{ req with offset := .closeYesterday, volume := req.volume - toInt today }] ↔
      0 ≤ toInt today ∧ (0 < toInt today ∨ today ≤ 0) ∧ FitsInt (req.volume - toInt today) ∧
        req.volume - toInt today ≤ yesterday := by
  simp only [netParts]
  rcases le_or_gt today 0 with spent | some
  · have none := toInt_nonpos spent
    rw [closePart_of_nonpos spent]
    simp only [none.not_gt, if_false, List.nil_append]
    by_cases asks : 0 < req.volume
    · simp only [asks, if_true]
      have cut : (toInt today : ℚ) ≤ 0 := by exact_mod_cast none
      rw [closeRest_eq_iff asks (by linarith)]
      constructor
      · rintro ⟨same, fits, within⟩
        have zero : (toInt today : ℚ) = 0 := by linarith
        refine ⟨by exact_mod_cast zero.ge, .inr spent, ?_, ?_⟩ <;> rwa [zero, sub_zero]
      · rintro ⟨nonneg, -, fits, within⟩
        have zero : (toInt today : ℚ) = 0 := by exact_mod_cast none.antisymm nonneg
        rw [zero, sub_zero] at fits within
        exact ⟨by rw [zero, sub_zero], fits, within⟩
    · simp only [asks, if_false]
      refine iff_of_false (by simp) fun divided => asks ?_
      have nonneg : (0 : ℚ) ≤ toInt today := by exact_mod_cast divided.1
      linarith
  · rw [closePart_of_pos some]
    rcases le_or_gt (toInt today) 0 with none | lots
    · refine iff_of_false ?_ fun divided => ?_
      · simp [none.not_gt]
      · exact divided.2.1.elim none.not_gt some.not_ge
    · have taken := toInt_min_of_exceeds lots exceeds
      have left : 0 < req.volume - toInt today := by linarith
      simp only [taken, lots, if_true, left, List.nil_append, List.cons_append,
        List.cons_eq_cons, true_and, true_or, lots.le]
      rw [closeRest_eq_iff left le_rfl, and_iff_right rfl]

end NetParts

theorem net_eq_shfe_iff (shfe : req.exchange.closesYesterday = true) :
    h.convertOrderRequestNet req = h.convertOrderRequestShfe req ↔
      DividedByNet (h.closedBy req.direction) req := by
  have parts : h.convertOrderRequestNet req =
      netParts req
        ((h.closedBy req.direction).td - (h.closedBy req.direction).tdFrozen)
        ((h.closedBy req.direction).yd - (h.closedBy req.direction).ydFrozen) := by
    unfold convertOrderRequestNet
    simp only [shfe, if_true]
    rfl
  rw [parts]
  unfold convertOrderRequestShfe DividedByNet
  by_cases opens : req.offset = .opening
  · simp only [opens, if_true]
    exact netParts_opening_iff opens
  · simp only [opens, if_false]
    generalize h.closedBy req.direction = leg
    rcases lt_or_ge (toInt (leg.pos - leg.posFrozen) : ℚ) req.volume with refused | enough
    · simp only [refused, refused.not_ge, if_true, true_and, false_and, or_false]
      exact netParts_nil_iff
    simp only [enough, enough.not_gt, if_false, false_and, true_and, false_or]
    rcases le_or_gt req.volume (toInt (leg.td - leg.tdFrozen) : ℚ) with whole | exceeds
    · simp only [whole, whole.not_gt, if_true, true_and, false_and, or_false]
      exact netParts_today_iff whole
    · simp only [exceeds, exceeds.not_ge, if_false, true_and, false_and, false_or]
      exact netParts_split_iff exceeds

/-- Without flags, a request is converted in the same way for net exactly where that divides it
alike. -/
theorem net_alike_iff :
    h.convertOrderRequestNet req =
        (if req.exchange.closesYesterday then h.convertOrderRequestShfe req else [req]) ↔
      NetAlike h req := by
  unfold NetAlike
  by_cases shfe : req.exchange.closesYesterday = true
  · rw [if_pos shfe, if_pos shfe]
    exact net_eq_shfe_iff shfe
  · rw [if_neg shfe, if_neg shfe]
    exact net_eq_self_iff (Bool.not_eq_true _ ▸ shfe)

/-- What closes does not open when it is divided for SHFE. -/
theorem shfe_not_opening (closing : req.offset.isClosing = true) :
    ∀ r ∈ h.convertOrderRequestShfe req, r.offset ≠ .opening := by
  unfold convertOrderRequestShfe
  rw [if_neg (by rintro opens; simp [opens, Offset.isClosing] at closing)]
  simp only
  split_ifs <;> simp

end PositionHolding

namespace OmsEngine

variable {s : OmsEngine} {req : OrderRequest} {exchangeName : AString} {lock net : Bool}

/-- The bound function returns what it is bound to return, and where neither flag is set, what
closes does not open. -/
structure Agrees (s : OmsEngine) (req : OrderRequest) (exchangeName : AString)
    (lock net : Bool) : Prop where
  same : (s.boundConvertOrderRequest req exchangeName lock net).1 =
    (s.convertOrderRequest req exchangeName lock net).1
  closes : lock = false → net = false → req.offset.isClosing = true →
    ∀ r ∈ (s.boundConvertOrderRequest req exchangeName lock net).1, r.offset ≠ .opening

/-- A flag is set, the symbol needs no conversion, or its holding converts the request alike for
net. -/
def FlagIdle (s : OmsEngine) (req : OrderRequest) (exchangeName : AString) (lock net : Bool) :
    Prop :=
  lock = true ∨ net = true ∨
    OffsetConverter.isConvertRequired s.getContract req.ktSymbol = false ∨
    ∀ c, s.getConverter exchangeName = some c →
      ∀ h, c.getPositionHolding s.getContract req.ktSymbol = some h → h.NetAlike req

instance : Decidable (FlagIdle s req exchangeName lock net) :=
  inferInstanceAs (Decidable (_ ∨ _ ∨ _ ∨ _))

theorem convertOrderRequest_of_converter {c : OffsetConverter}
    (found : s.getConverter exchangeName = some c) (req : OrderRequest) (lock net : Bool) :
    (s.convertOrderRequest req exchangeName lock net).1 =
      (c.convertOrderRequest s.getContract req lock net).1 := by
  simp [convertOrderRequest, found]

/-- A symbol that needs conversion has a holding. -/
theorem exists_holding {c : OffsetConverter} {ktSymbol : AString}
    (required : OffsetConverter.isConvertRequired s.getContract ktSymbol = true) :
    ∃ h, c.getPositionHolding s.getContract ktSymbol = some h := by
  unfold OffsetConverter.isConvertRequired at required
  unfold OffsetConverter.getPositionHolding
  cases c.holdings[ktSymbol]? with
  | some h => exact ⟨h, rfl⟩
  | none =>
    cases known : s.getContract ktSymbol with
    | none => simp [known] at required
    | some contract => exact ⟨_, rfl⟩

/-- The bound conversion is the one that it is bound to, exactly where the dropped flag makes no
difference. -/
theorem agrees_iff (s : OmsEngine) (req : OrderRequest) (exchangeName : AString) (lock net : Bool)
    (served : (s.getConverter exchangeName).isSome) :
    Agrees s req exchangeName lock net ↔ FlagIdle s req exchangeName lock net := by
  obtain ⟨c, found⟩ := Option.isSome_iff_exists.mp served
  have direct := convertOrderRequest_of_converter found req lock net
  have bound : (s.boundConvertOrderRequest req exchangeName lock net).1 =
      (c.convertOrderRequest s.getContract req lock true).1 :=
    convertOrderRequest_of_converter found req lock true
  cases lock with
  | true =>
    refine iff_of_true ⟨?_, by simp⟩ (.inl rfl)
    rw [bound, direct]
    simp [OffsetConverter.convertOrderRequest]
  | false =>
  cases net with
  | true => exact iff_of_true ⟨rfl, by simp⟩ (.inr (.inl rfl))
  | false =>
  cases required : OffsetConverter.isConvertRequired s.getContract req.ktSymbol with
  | false =>
    have alone : ∀ net, (c.convertOrderRequest s.getContract req false net).1 = [req] := by
      simp [OffsetConverter.convertOrderRequest, required]
    refine iff_of_true ⟨?_, ?_⟩ (.inr (.inr (.inl required)))
    · rw [bound, direct, alone, alone]
    · intro _ _ closing r mem
      rw [bound, alone, List.mem_singleton] at mem
      rintro opens
      simp [← mem, opens, Offset.isClosing] at closing
  | true =>
    obtain ⟨h, held⟩ := exists_holding (c := c) required
    have netted : (c.convertOrderRequest s.getContract req false true).1 =
        h.convertOrderRequestNet req := by
      simp [OffsetConverter.convertOrderRequest, required, held]
    have plain : (c.convertOrderRequest s.getContract req false false).1 =
        if req.exchange.closesYesterday then h.convertOrderRequestShfe req else [req] := by
      simp [OffsetConverter.convertOrderRequest, required, held]
    have idle : FlagIdle s req exchangeName false false ↔ h.NetAlike req := by
      simp [FlagIdle, required, found, held]
    rw [netted] at bound
    rw [plain] at direct
    rw [idle, ← PositionHolding.net_alike_iff]
    constructor
    · intro agrees
      rw [← bound, ← direct]
      exact agrees.same
    · intro alike
      refine ⟨by rw [bound, direct, alike], fun _ _ closing r mem => ?_⟩
      rw [bound, alike] at mem
      split at mem
      · exact PositionHolding.shfe_not_opening closing r mem
      · rw [List.mem_singleton] at mem
        rintro opens
        simp [← mem, opens, Offset.isClosing] at closing

section Empty

/-- An exchange with a converter, and a contract of which nothing is held. -/
def unheld : OmsEngine :=
  { contracts := {("m2409.DCE", { symbol := "m2409", exchange := .dce, product := .futures
                                  pricetick := 1, exchangeName := "CTP" })}
    offsetConverters := {("CTP", { address := 0 })} }

def asks (offset : Offset) : OrderRequest :=
  { symbol := "m2409", exchange := .dce, direction := .short, type := .limit, price := 3000
    volume := 2, offset }

/-- An opening request is the same either way. -/
theorem opening_agrees : Agrees unheld (asks .opening) "CTP" false false :=
  (agrees_iff unheld (asks .opening) "CTP" false false (by decide +kernel)).mpr
    (by decide +kernel)

/-- A closing request opens where it has nothing to close. -/
theorem closing_opened :
    ¬ ∀ (s : OmsEngine) (req : OrderRequest) (exchangeName : AString) (lock net : Bool),
      (s.getConverter exchangeName).isSome → Agrees s req exchangeName lock net := by
  intro all
  have closes := (all unheld (asks .close) "CTP" false false (by decide +kernel)).closes rfl rfl rfl
  exact absurd closes (by decide +kernel)

end Empty

end OmsEngine

end KeenTrader.Engine
