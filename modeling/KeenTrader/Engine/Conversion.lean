import KeenTrader.Engine.Soundness

/-!
# The conversion for SHFE

A `CLOSE` request is divided into a part that closes today's volume and one that closes yesterday's.
The availabilities are cut to integers. What is not available today is added to the part of
yesterday, also where the amounts frozen today exceed those that are held.
-/

namespace KeenTrader.Engine

open Containers

namespace PositionHolding

/-- The requests that a conversion returns for a `CLOSE` request are none, or they have positive
volumes that add up to the one requested, and each is available on its part of the leg. -/
def Divides (leg : Leg) (req : OrderRequest) (reqs : List OrderRequest) : Prop :=
  reqs = [] ∨
    ((∀ r ∈ reqs, 0 < r.volume) ∧ (reqs.map OrderRequest.volume).sum = req.volume ∧
      ∀ r ∈ reqs,
        (r.offset = .closeToday ∧ r.volume ≤ leg.td - leg.tdFrozen) ∨
          (r.offset = .closeYesterday ∧ r.volume ≤ leg.yd - leg.ydFrozen))

/-- So many lots fit into an amount, rounded up, and the amount fits an `int`. -/
def Enough (volume amount : ℚ) : Prop := (⌈volume⌉ : ℚ) ≤ amount ∧ amount < 2 ^ 31

/-- The volume is not available at all, or it is available today, or it is available with
yesterday's volume beside the whole lots of today, of which not so much is frozen that a lot is
missing. -/
def Divisible (leg : Leg) (volume : ℚ) : Prop :=
  let today := leg.td - leg.tdFrozen
  ¬Enough volume (leg.pos - leg.posFrozen) ∨ Enough volume today ∨
    (-1 < today ∧ today < 2 ^ 31 ∧ volume - (max 0 ⌊today⌋ : ℤ) ≤ leg.yd - leg.ydFrozen)

instance {volume amount : ℚ} : Decidable (Enough volume amount) :=
  inferInstanceAs (Decidable (_ ∧ _))

instance {leg : Leg} {volume : ℚ} : Decidable (Divisible leg volume) :=
  inferInstanceAs (Decidable (_ ∨ _ ∨ _ ∧ _ ∧ _))

variable {leg : Leg} {req : OrderRequest}

/-- A request that today's volume does not cover is divided as it should be exactly if today's
availability is not negative and yesterday's covers the rest. -/
theorem divides_rest_iff {today : ℤ} (exceeds : today < req.volume)
    (available : 0 < today → (today : ℚ) ≤ leg.td - leg.tdFrozen) :
    Divides leg req
      ((if 0 < today then [{ req with offset := .closeToday, volume := (today : ℚ) }] else []) ++
        [{ req with offset := .closeYesterday, volume := req.volume - today }]) ↔
      0 ≤ today ∧ req.volume - today ≤ leg.yd - leg.ydFrozen := by
  unfold Divides
  by_cases some : 0 < today
  · have part : (0 : ℚ) < today := by exact_mod_cast some
    simp [some, part, exceeds, available some, some.le]
  · have none : 0 ≤ today ↔ today = 0 := by omega
    simp [some, exceeds, none]

/-- The condition in terms of the integers that availabilities are cut to. -/
theorem divisible_iff {volume : ℚ} (positive : 0 < volume) :
    Divisible leg volume ↔
      toInt (leg.pos - leg.posFrozen) < volume ∨ volume ≤ toInt (leg.td - leg.tdFrozen) ∨
        (0 ≤ toInt (leg.td - leg.tdFrozen) ∧
          volume - toInt (leg.td - leg.tdFrozen) ≤ leg.yd - leg.ydFrozen) := by
  unfold Divisible Enough
  simp only
  rw [← le_toInt_iff positive, ← le_toInt_iff positive, ← and_assoc, ← toInt_nonneg_iff, not_le]
  refine or_congr_right (or_congr_right (and_congr_right fun nonneg => ?_))
  rw [toInt_eq_of_nonneg nonneg]

theorem divides_convert_iff (h : PositionHolding) (close : req.offset = .close)
    (volume : 0 < req.volume) :
    Divides (h.closedBy req.direction) req (h.convertOrderRequestShfe req) ↔
      Divisible (h.closedBy req.direction) req.volume := by
  rw [divisible_iff volume]
  unfold convertOrderRequestShfe
  rw [if_neg (by rw [close]; decide)]
  generalize h.closedBy req.direction = leg
  simp only
  split
  · rename_i none
    exact iff_of_true (.inl rfl) (.inl none)
  · rename_i enough
    rw [or_iff_right enough]
    split
    · rename_i today
      have whole : (0 : ℚ) < toInt (leg.td - leg.tdFrozen) := volume.trans_le today
      have fits := today.trans (toInt_le (by exact_mod_cast whole))
      refine iff_of_true (.inr ?_) (.inl today)
      simpa using ⟨volume, fits⟩
    · rename_i exceeds
      rw [divides_rest_iff (not_le.mp exceeds) toInt_le, or_iff_right exceeds]

/-- A holding that starts with a contract and goes through calls. -/
def reached (enum : Enumeration AString OrderData) (contract : ContractData) (calls : List Call) :
    PositionHolding :=
  calls.foldl (call enum) (ofContract contract)

/-- In every holding that is reached, a `CLOSE` request is divided into available parts exactly
where it is not divisible at all or its parts are available. -/
theorem divides_iff (enum : Enumeration AString OrderData) (contract : ContractData)
    (calls : List Call) (req : OrderRequest) (close : req.offset = .close)
    (volume : 0 < req.volume) :
    Divides ((reached enum contract calls).closedBy req.direction) req
        ((reached enum contract calls).convertOrderRequestShfe req) ↔
      Divisible ((reached enum contract calls).closedBy req.direction) req.volume :=
  divides_convert_iff _ close volume

section Shrinking

/-- The contract, the snapshots and the requests of a future. -/
def rb : ContractData :=
  { symbol := "rb2410", exchange := .shfe, product := .futures, pricetick := 1 }

def longOf (volume ydVolume : ℚ) : PositionData :=
  { symbol := "rb2410", exchange := .shfe, direction := .long, volume, ydVolume }

def sells (offset : Offset) (volume : ℚ) : OrderRequest :=
  { symbol := "rb2410", exchange := .shfe, direction := .short, type := .limit, price := 3500
    volume, offset }

/-- Today's lot is frozen, and then a snapshot no longer has it. -/
def shrinking : List Call :=
  [.updatePosition (longOf 6 5), .updateOrderRequest (sells .closeToday 1) "CTP.1",
    .updatePosition (longOf 5 5)]

/-- Before that, two lots of yesterday's are found beside it. -/
theorem divides_three :
    Divides ((reached .sorted rb (shrinking.take 1)).closedBy .short) (sells .close 3)
      ((reached .sorted rb (shrinking.take 1)).convertOrderRequestShfe (sells .close 3)) := by
  have three : (0 : ℚ) < 3 := by norm_num
  have divisible : Divisible ((reached .sorted rb (shrinking.take 1)).closedBy .short) 3 := by
    decide +kernel
  exact (divides_iff .sorted rb (shrinking.take 1) (sells .close 3) rfl three).mpr divisible

/-- Where three lots of yesterday's are to be closed, four are then asked for. -/
theorem frozen_lot_added :
    ¬ ∀ (enum : Enumeration AString OrderData) (contract : ContractData) (calls : List Call),
      (∀ p, .updatePosition p ∈ calls → 0 ≤ p.ydVolume ∧ p.ydVolume ≤ p.volume) →
      ∀ req : OrderRequest, req.offset = .close → 0 < req.volume →
        Divides ((reached enum contract calls).closedBy req.direction) req
          ((reached enum contract calls).convertOrderRequestShfe req) := by
  intro all
  have three : (0 : ℚ) < 3 := by norm_num
  have bounds : ∀ p, .updatePosition p ∈ shrinking → 0 ≤ p.ydVolume ∧ p.ydVolume ≤ p.volume := by
    intro p mem
    simp only [shrinking, List.mem_cons, List.not_mem_nil, Call.updatePosition.injEq, reduceCtorEq,
      or_false, false_or] at mem
    rcases mem with rfl | rfl <;> norm_num [longOf]
  have divides := all .sorted rb shrinking bounds (sells .close 3) rfl three
  have divisible := (divides_convert_iff _ rfl three).mp divides
  exact absurd divisible (by decide +kernel)

end Shrinking

end PositionHolding

end KeenTrader.Engine
