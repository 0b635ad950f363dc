import KeenTrader.Library.Runs
import KeenTrader.Engine.Converter

/-!
# Sound holdings

A leg is sound when its position and its frozen amount are the sums of their today and
yesterday parts and neither part is frozen beyond what is held, so that the volume available
to the converters is never negative. Order updates and trades end in `sumPosFrozen` and keep
a holding sound whatever they carry; a position snapshot leaves the frozen amounts as they
were and keeps it sound exactly when it covers them.
-/

namespace KeenTrader.Engine

open Containers Runs

namespace Leg

structure Sound (l : Leg) : Prop where
  pos_eq : l.pos = l.td + l.yd
  frozen_eq : l.posFrozen = l.tdFrozen + l.ydFrozen
  td_le : l.tdFrozen ≤ l.td
  yd_le : l.ydFrozen ≤ l.yd

theorem Sound.available {l : Leg} (h : l.Sound) : 0 ≤ l.pos - l.posFrozen := by
  rw [h.pos_eq, h.frozen_eq]
  linarith [h.td_le, h.yd_le]

theorem sound_sumPosFrozen {l : Leg} (pos_eq : l.pos = l.td + l.yd) : l.sumPosFrozen.Sound where
  pos_eq := pos_eq
  frozen_eq := rfl
  td_le := min_le_right _ _
  yd_le := min_le_right _ _

/-- A snapshot keeps the frozen amounts, so it is sound exactly when it covers them. -/
theorem sound_snapshot {l : Leg} (h : l.Sound) (volume ydVolume : ℚ) :
    (l.snapshot volume ydVolume).Sound ↔
      l.tdFrozen ≤ volume - ydVolume ∧ l.ydFrozen ≤ ydVolume := by
  constructor
  · intro after
    exact ⟨after.td_le, after.yd_le⟩
  · rintro ⟨td_le, yd_le⟩
    exact ⟨by simp [snapshot], h.frozen_eq, td_le, yd_le⟩

/-- Freezing touches the frozen amounts only. -/
theorem freeze_held (l : Leg) (offset : Offset) (frozen : ℚ) :
    (l.freeze offset frozen).pos = l.pos ∧ (l.freeze offset frozen).td = l.td ∧
      (l.freeze offset frozen).yd = l.yd := by
  cases offset <;> simp only [freeze, and_self]
  split <;> simp

end Leg

namespace PositionHolding

theorem freezeLeg_held (side : Side) (os : List OrderData) (l : Leg) :
    (os.foldl (freezeLeg side) l).pos = l.pos ∧ (os.foldl (freezeLeg side) l).td = l.td ∧
      (os.foldl (freezeLeg side) l).yd = l.yd := by
  induction os generalizing l with
  | nil => exact ⟨rfl, rfl, rfl⟩
  | cons o os ih =>
    obtain ⟨pos, td, yd⟩ := ih (freezeLeg side l o)
    have one : (freezeLeg side l o).pos = l.pos ∧ (freezeLeg side l o).td = l.td ∧
        (freezeLeg side l o).yd = l.yd := by
      unfold freezeLeg
      split
      · exact Leg.freeze_held l o.offset o.remaining
      · exact ⟨rfl, rfl, rfl⟩
    exact ⟨pos.trans one.1, td.trans one.2.1, yd.trans one.2.2⟩

/-- The calls that change a holding. -/
inductive Call where
  | updatePosition (position : PositionData)
  | updateOrder (order : OrderData)
  | updateOrderRequest (req : OrderRequest) (ktOrderid : AString)
  | updateTrade (trade : TradeData)

variable (enum : Enumeration AString OrderData)

def call (h : PositionHolding) : Call → PositionHolding
  | .updatePosition p => h.updatePosition p
  | .updateOrder o => h.updateOrder enum o
  | .updateOrderRequest req ktOrderid => h.updateOrderRequest enum req ktOrderid
  | .updateTrade t => h.updateTrade t

/-- Both legs are sound, and so no available volume is negative. -/
def Sound (h : PositionHolding) : Prop :=
  ∀ side, (h.leg side).Sound ∧ 0 ≤ (h.leg side).pos - (h.leg side).posFrozen

/-- A position snapshot covers what is frozen on the leg it sets, today's and yesterday's
part separately. Other calls are not restricted. -/
def SnapshotCovers (h : PositionHolding) : Call → Prop
  | .updatePosition p => ∀ side, (p.direction = .long ↔ side = .long) →
      (h.leg side).tdFrozen ≤ p.volume - p.ydVolume ∧ (h.leg side).ydFrozen ≤ p.ydVolume
  | _ => True

theorem sound_of_legs {h : PositionHolding} (legs : ∀ side, (h.leg side).Sound) : h.Sound :=
  fun side => ⟨legs side, (legs side).available⟩

theorem sound_ofContract (contract : ContractData) : (ofContract contract).Sound := by
  apply sound_of_legs
  intro side
  cases side <;> constructor <;> simp [ofContract, leg]

variable {enum} {h : PositionHolding}

theorem sound_updateOrder (sound : h.Sound) (o : OrderData) : (h.updateOrder enum o).Sound := by
  apply sound_of_legs
  intro side
  rw [leg_updateOrder]
  apply Leg.sound_sumPosFrozen
  obtain ⟨pos, td, yd⟩ := freezeLeg_held side
    (enum.values (h.updateOrder enum o).activeOrders) (h.leg side).clearFrozen
  rw [pos, td, yd]
  exact (sound side).1.pos_eq

/-- A trade sums up the position afresh, so nothing is needed of the state before it. -/
theorem sound_updateTrade (h : PositionHolding) (t : TradeData) : (h.updateTrade t).Sound := by
  apply sound_of_legs
  intro side
  rw [leg_updateTrade]
  exact Leg.sound_sumPosFrozen rfl

theorem sound_updatePosition (sound : h.Sound) (p : PositionData) :
    (h.updatePosition p).Sound ↔ SnapshotCovers h (.updatePosition p) := by
  constructor
  · intro after side set
    have leg := (after side).1
    rw [leg_updatePosition, if_pos set] at leg
    exact (Leg.sound_snapshot (sound side).1 _ _).mp leg
  · intro covers
    apply sound_of_legs
    intro side
    rw [leg_updatePosition]
    split
    · rename_i set
      exact (Leg.sound_snapshot (sound side).1 _ _).mpr (covers side set)
    · exact (sound side).1

theorem sound_call (sound : h.Sound) (c : Call) : (h.call enum c).Sound ↔ SnapshotCovers h c := by
  cases c with
  | updatePosition p => exact sound_updatePosition sound p
  | updateOrder o => simpa [call, SnapshotCovers] using sound_updateOrder sound o
  | updateOrderRequest req ktOrderid =>
    simpa [call, SnapshotCovers, updateOrderRequest] using sound_updateOrder sound _
  | updateTrade t => simpa [call, SnapshotCovers] using sound_updateTrade h t

/-- A fresh holding stays sound through a sequence of calls exactly when every position
snapshot in it covers the amounts frozen when it arrives. -/
theorem sound_iff_snapshots_cover (enum : Enumeration AString OrderData)
    (contract : ContractData) (calls : List Call) :
    Always (call enum) Sound (ofContract contract) calls ↔
      Meets (call enum) SnapshotCovers (ofContract contract) calls :=
  always_iff_meets (fun _ c sound => sound_call sound c) (sound_ofContract contract)

/-- A long position of five is closed in full, and the snapshot that no longer shows it
arrives before the order update. -/
def uncoveredSnapshot : List Call :=
  [.updatePosition
      { symbol := "rb2410", exchange := .shfe, direction := .long, volume := 5 },
    .updateOrderRequest
      { symbol := "rb2410", exchange := .shfe, direction := .short, type := .limit
        volume := 5, price := 3500, offset := .closeToday } "CTP.1",
    .updatePosition
      { symbol := "rb2410", exchange := .shfe, direction := .long, volume := 0 }]

/-- The snapshot leaves five lots frozen on an empty position. -/
theorem uncoveredSnapshot_not_sound :
    ¬ ∀ (enum : Enumeration AString OrderData) (contract : ContractData) (calls : List Call),
      Always (call enum) Sound (ofContract contract) calls := by
  intro all
  let contract : ContractData :=
    { symbol := "rb2410", exchange := .shfe, product := .futures, pricetick := 1 }
  have last := (all .sorted contract uncoveredSnapshot).last
  have frozen : ¬ (((uncoveredSnapshot.foldl (call .sorted) (ofContract contract)).leg
      .long).tdFrozen ≤ ((uncoveredSnapshot.foldl (call .sorted) (ofContract contract)).leg
      .long).td) := by decide +kernel
  exact frozen (last .long).1.td_le

end PositionHolding

end KeenTrader.Engine
