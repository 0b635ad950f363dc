import KeenTrader.Engine.Closing
import KeenTrader.Engine.Conversion

/-!
# The conversions for lock and net

Where a strategy asks for it, a request is divided into a part that closes and a part that opens.
The lock conversion closes yesterday's volume only, and cuts both parts to integers. The net
conversion closes whatever it can, and opens what then remains without cutting it.
-/

namespace KeenTrader.Engine

open Containers

/-- The number is whole and fits an `int`. -/
def FitsInt (q : ℚ) : Prop := Whole q ∧ -2 ^ 31 ≤ q ∧ q < 2 ^ 31

instance (q : ℚ) : Decidable (FitsInt q) := inferInstanceAs (Decidable (_ ∧ _))

theorem Whole.max {p q : ℚ} (hp : Whole p) (hq : Whole q) : Whole (max p q) := by
  rcases max_choice p q with eq | eq <;> rw [eq] <;> assumption

theorem fitsInt_toInt (q : ℚ) : FitsInt (toInt q) := by
  have bounds : -2 ^ 31 ≤ toInt q ∧ toInt q < 2 ^ 31 := by
    unfold toInt
    grind
  exact ⟨⟨_, rfl⟩, by exact_mod_cast bounds.1, by exact_mod_cast bounds.2⟩

theorem toInt_eq_iff {q : ℚ} : (toInt q : ℚ) = q ↔ FitsInt q := by
  constructor
  · intro eq
    exact eq ▸ fitsInt_toInt q
  · rintro ⟨⟨n, rfl⟩, low, high⟩
    rw [toInt_of_fits (by exact_mod_cast low) (by exact_mod_cast high)]

/-- A number that is not negative is cut, or it overflows below zero. -/
theorem toInt_le_of_nonneg {q : ℚ} (nonneg : 0 ≤ q) : (toInt q : ℚ) ≤ q := by
  rcases le_or_gt (toInt q) 0 with negative | positive
  · have cut : (toInt q : ℚ) ≤ 0 := by exact_mod_cast negative
    exact cut.trans nonneg
  · exact toInt_le positive

namespace PositionHolding

/-- What the requests with an offset ask for. -/
def volumeAt (offset : Offset) (reqs : List OrderRequest) : ℚ :=
  ((reqs.filter (·.offset = offset)).map OrderRequest.volume).sum

@[simp] theorem volumeAt_nil (offset : Offset) : volumeAt offset [] = 0 := rfl

@[simp] theorem volumeAt_append (offset : Offset) (reqs reqs' : List OrderRequest) :
    volumeAt offset (reqs ++ reqs') = volumeAt offset reqs + volumeAt offset reqs' := by
  simp [volumeAt]

@[simp] theorem volumeAt_singleton (offset : Offset) (r : OrderRequest) :
    volumeAt offset [r] = if r.offset = offset then r.volume else 0 := by
  by_cases same : r.offset = offset <;> simp [volumeAt, same]

variable {req : OrderRequest}

/-! ## Lock -/

/-- The requests add up to the one that was converted, and close no more of yesterday's volume than
is available. -/
structure Locks (leg : Leg) (req : OrderRequest) (reqs : List OrderRequest) : Prop where
  total : (reqs.map OrderRequest.volume).sum = req.volume
  room : ∀ r ∈ reqs, r.offset.isClosing → r.volume ≤ max 0 (leg.yd - leg.ydFrozen)

/-- The part of a volume that yesterday's volume covers. -/
def lockedPart (leg : Leg) (volume : ℚ) : ℚ := max 0 (min volume (leg.yd - leg.ydFrozen))

/-- The request is opened as a whole, or not so much is frozen of yesterday's volume that a lot is
missing, and the part that it covers and the rest are whole numbers that fit. -/
def Lockable (h : PositionHolding) (req : OrderRequest) : Prop :=
  let leg := h.closedBy req.direction
  (leg.td ≠ 0 ∧ h.exchange.closesYesterday = false) ∨
    (-1 < leg.yd - leg.ydFrozen ∧ FitsInt (lockedPart leg req.volume) ∧
      FitsInt (req.volume - lockedPart leg req.volume))

instance (h : PositionHolding) (req : OrderRequest) : Decidable (Lockable h req) :=
  inferInstanceAs (Decidable (_ ∨ _))

/-- The two parts of a volume, cut to integers, add up to it exactly if neither of them is cut. -/
theorem toInt_add_eq_iff {p q : ℚ} (hp : 0 ≤ p) (hq : 0 ≤ q) :
    toInt p + max 0 (toInt q : ℚ) = p + q ↔ FitsInt p ∧ FitsInt q := by
  have cut_p := toInt_le_of_nonneg hp
  have cut_q := toInt_le_of_nonneg hq
  rw [← toInt_eq_iff, ← toInt_eq_iff]
  constructor
  · intro eq
    have cut_max : max 0 (toInt q : ℚ) ≤ q := max_le hq cut_q
    refine ⟨by linarith, ?_⟩
    have max_eq : max 0 (toInt q : ℚ) = q := by linarith
    rcases le_or_gt 0 (toInt q : ℚ) with nonneg | negative
    · rwa [max_eq_right nonneg] at max_eq
    · rw [max_eq_left negative.le] at max_eq
      rw [← max_eq]
      exact toInt_intCast 0 ▸ rfl
  · rintro ⟨p_eq, q_eq⟩
    rw [p_eq, q_eq, max_eq_right hq]

/-- Where more is frozen than is held, what opens is the volume alone only if less than a lot is
missing. -/
theorem max_toInt_sub_eq_iff {v a : ℚ} (volume : 0 < v) (short : a ≤ 0) :
    max 0 (toInt (v - a) : ℚ) = v ↔ -1 < a ∧ FitsInt v := by
  have nonneg : 0 ≤ v - a := by linarith
  constructor
  · intro eq
    have opened : (toInt (v - a) : ℚ) = v := by
      rcases max_choice 0 (toInt (v - a) : ℚ) with none | some
      · linarith
      · rwa [some] at eq
    have positive : 0 < toInt (v - a) := by exact_mod_cast opened ▸ volume
    have cut := toInt_eq_of_nonneg positive.le
    have floor : ⌊v - a⌋ = toInt (v - a) := by omega
    have below := Int.lt_floor_add_one (v - a)
    rw [floor, opened] at below
    exact ⟨by linarith, opened ▸ fitsInt_toInt _⟩
  · rintro ⟨missing, ⟨n, rfl⟩, -, high⟩
    have floor : ⌊(n : ℚ) - a⌋ = n := Int.floor_eq_iff.mpr ⟨by linarith, by linarith⟩
    have fits : n < 2 ^ 31 := by exact_mod_cast high
    rcases toInt_cases ((n : ℚ) - a) with ⟨-, cut⟩ | ⟨negative, -⟩
    · rw [cut, floor, if_pos fits, max_eq_right volume.le]
    · linarith

/-- A part that closes yesterday's volume and a part that opens, where each asks for something. -/
theorem locks_parts_iff {leg : Leg} {closes : Offset} {close rest : ℤ}
    (room : 0 < leg.yd - leg.ydFrozen → (close : ℚ) ≤ leg.yd - leg.ydFrozen) :
    Locks leg req
      ((if 0 < leg.yd - leg.ydFrozen then [{ req with offset := closes, volume := (close : ℚ) }]
        else []) ++
        if 0 < rest then [{ req with offset := .opening, volume := (rest : ℚ) }] else []) ↔
      (if 0 < leg.yd - leg.ydFrozen then (close : ℚ) else 0) + max 0 (rest : ℚ) = req.volume := by
  have total : (((if 0 < leg.yd - leg.ydFrozen then
        [{ req with offset := closes, volume := (close : ℚ) }] else []) ++
        if 0 < rest then [{ req with offset := .opening, volume := (rest : ℚ) }]
          else []).map OrderRequest.volume).sum =
      (if 0 < leg.yd - leg.ydFrozen then (close : ℚ) else 0) + max 0 (rest : ℚ) := by
    have opens : max 0 (rest : ℚ) = if 0 < rest then (rest : ℚ) else 0 := by
      split
      · rename_i some
        exact max_eq_right (by exact_mod_cast some.le)
      · rename_i none
        exact max_eq_left (by exact_mod_cast not_lt.mp none)
    rw [opens]
    split_ifs <;> simp
  rw [← total]
  refine ⟨Locks.total, fun eq => ⟨eq, fun r mem closer => ?_⟩⟩
  rcases List.mem_append.mp mem with mem | mem
  · obtain ⟨some, rfl⟩ := by simpa using mem
    exact (room (by linarith)).trans (le_max_right _ _)
  · obtain ⟨-, rfl⟩ := by simpa using mem
    simp [Offset.isClosing] at closer

theorem locks_convert_iff (h : PositionHolding) (volume : 0 < req.volume) :
    Locks (h.closedBy req.direction) req (h.convertOrderRequestLock req) ↔ h.Lockable req := by
  unfold convertOrderRequestLock Lockable lockedPart
  generalize h.closedBy req.direction = leg
  simp only
  split
  · rename_i today
    exact iff_of_true ⟨by simp, by simp [Offset.isClosing]⟩ (.inl today)
  · rename_i ahead
    have room (some : 0 < leg.yd - leg.ydFrozen) :
        (toInt (min req.volume (leg.yd - leg.ydFrozen)) : ℚ) ≤ leg.yd - leg.ydFrozen :=
      (toInt_le_of_nonneg (le_min volume.le some.le)).trans (min_le_right _ _)
    rw [or_iff_right ahead, locks_parts_iff room]
    generalize leg.yd - leg.ydFrozen = available
    rcases le_or_gt available 0 with short | some
    · have part : max 0 (min req.volume available) = 0 := by grind
      have rest : max 0 (req.volume - available) = req.volume - available := by grind
      have zero : FitsInt 0 := ⟨Whole.zero, by norm_num, by norm_num⟩
      rw [if_neg short.not_gt, zero_add, part, rest, max_toInt_sub_eq_iff volume short, sub_zero,
        and_iff_right zero]
    · have part : max 0 (min req.volume available) = min req.volume available := by grind
      have rest : max 0 (req.volume - available) = req.volume - min req.volume available := by
        grind
      have both := toInt_add_eq_iff (p := min req.volume available)
        (q := req.volume - min req.volume available) (by grind) (by grind)
      have above : -1 < available := by linarith
      rw [add_sub_cancel] at both
      rw [if_pos some, part, rest, both, and_iff_right above]

/-- In every holding that is reached, a request is divided for lock as it should be exactly where it
is opened as a whole or neither part is cut. -/
theorem locks_iff (enum : Enumeration AString OrderData) (contract : ContractData)
    (calls : List Call) (req : OrderRequest) (volume : 0 < req.volume) :
    Locks ((reached enum contract calls).closedBy req.direction) req
        ((reached enum contract calls).convertOrderRequestLock req) ↔
      (reached enum contract calls).Lockable req :=
  locks_convert_iff _ volume

section Stale

/-- A lot of yesterday's is frozen, and then a snapshot no longer has it. -/
def stale : List Call :=
  [.updatePosition (longOf 6 1), .updateOrderRequest (sells .closeYesterday 1) "CTP.1",
    .updatePosition (longOf 5 0)]

/-- Before that, the lot is closed, and two more are opened. -/
theorem locks_three :
    Locks ((reached .sorted rb (stale.take 1)).closedBy .short) (sells .close 3)
      ((reached .sorted rb (stale.take 1)).convertOrderRequestLock (sells .close 3)) := by
  have three : (0 : ℚ) < 3 := by norm_num
  exact (locks_iff .sorted rb (stale.take 1) (sells .close 3) three).mpr (by decide +kernel)

/-- Where three lots are to be locked, four are then opened. -/
theorem missing_lot_opened :
    ¬ ∀ (enum : Enumeration AString OrderData) (contract : ContractData) (calls : List Call),
      (∀ p, .updatePosition p ∈ calls → 0 ≤ p.ydVolume ∧ p.ydVolume ≤ p.volume) →
      ∀ req : OrderRequest, 0 < req.volume →
        Locks ((reached enum contract calls).closedBy req.direction) req
          ((reached enum contract calls).convertOrderRequestLock req) := by
  intro all
  have three : (0 : ℚ) < 3 := by norm_num
  have bounds : ∀ p, .updatePosition p ∈ stale → 0 ≤ p.ydVolume ∧ p.ydVolume ≤ p.volume := by
    intro p mem
    simp only [stale, List.mem_cons, List.not_mem_nil, Call.updatePosition.injEq, reduceCtorEq,
      or_false, false_or] at mem
    rcases mem with rfl | rfl <;> norm_num [longOf]
  have locks := all .sorted rb stale bounds (sells .close 3) three
  exact absurd ((locks_convert_iff _ three).mp locks) (by decide +kernel)

end Stale

/-! ## Net -/

/-- What is not negative of an amount. -/
def available (held frozen : ℚ) : ℚ := max 0 (held - frozen)

/-- What a net conversion may close with an offset on its exchange. -/
def closable (leg : Leg) (req : OrderRequest) : Offset → ℚ
  | .closeToday =>
    if req.exchange.closesYesterday then available leg.td leg.tdFrozen else 0
  | .closeYesterday =>
    if req.exchange.closesYesterday then available leg.yd leg.ydFrozen else 0
  | .close => if req.exchange.closesYesterday then 0 else available leg.pos leg.posFrozen
  | .none | .opening => 0

/-- The quantities of which the parts of a request are made are whole numbers. -/
structure WholeLots (leg : Leg) (req : OrderRequest) : Prop where
  volume : Whole req.volume
  td : Whole (leg.td - leg.tdFrozen)
  yd : Whole (leg.yd - leg.ydFrozen)
  pos : Whole (leg.pos - leg.posFrozen)

/-- The requests add up to the one that was converted, none is negative, and they close no more than
is available. In whole lots they open what exceeds that. -/
structure Nets (leg : Leg) (req : OrderRequest) (reqs : List OrderRequest) : Prop where
  total : (reqs.map OrderRequest.volume).sum = req.volume
  nonneg : ∀ r ∈ reqs, 0 ≤ r.volume
  room : ∀ offset, offset ≠ .opening → volumeAt offset reqs ≤ closable leg req offset
  opened : WholeLots leg req → volumeAt .opening reqs =
    max 0 (req.volume - (closable leg req .closeToday + closable leg req .closeYesterday +
      closable leg req .close))

/-- What one part of a conversion takes out of what was left for it. -/
structure Takes (offset : Offset) (limit left : ℚ) (part : List OrderRequest × ℚ) : Prop where
  offset : ∀ r ∈ part.1, r.offset = offset
  nonneg : ∀ r ∈ part.1, 0 ≤ r.volume
  total : (part.1.map OrderRequest.volume).sum + part.2 = left
  limit_le : (part.1.map OrderRequest.volume).sum ≤ limit
  rest : 0 ≤ part.2
  whole : Whole left → Whole limit → part.2 = max 0 (left - limit)

section Parts
variable {offset : Offset} {limit left : ℚ} {part : List OrderRequest × ℚ}

theorem Takes.volumeAt_eq (takes : Takes offset limit left part) (other : Offset) :
    volumeAt other part.1 =
      if offset = other then (part.1.map OrderRequest.volume).sum else 0 := by
  unfold volumeAt
  split
  · rename_i same
    rw [List.filter_eq_self.mpr]
    intro r mem
    simpa [takes.offset r mem] using same
  · rename_i apart
    rw [List.filter_eq_nil_iff.mpr]
    · rfl
    · intro r mem
      simpa [takes.offset r mem] using apart

theorem Takes.rest_le (takes : Takes offset limit left part) : part.2 ≤ left := by
  have some : 0 ≤ (part.1.map OrderRequest.volume).sum := by
    refine List.sum_nonneg fun q mem => ?_
    obtain ⟨r, here, rfl⟩ := List.mem_map.mp mem
    exact takes.nonneg r here
  linarith [takes.total]

theorem available_nonneg (held frozen : ℚ) : 0 ≤ available held frozen := le_max_left _ _

theorem takes_nothing (offset : Offset) (nonneg : 0 ≤ limit) (left : ℚ) (rest : 0 ≤ left)
    (none : Whole left → Whole limit → left = max 0 (left - limit)) :
    Takes offset limit left ([], left) where
  offset := by simp
  nonneg := by simp
  total := by simp
  limit_le := by simpa using nonneg
  rest := rest
  whole := none

theorem closePart_takes (req : OrderRequest) (offset : Offset) (held frozen : ℚ) (some : 0 ≤ left)
    (fits : left < 2 ^ 31) :
    Takes offset (available held frozen) left (closePart req offset (held - frozen) left) := by
  unfold closePart
  split
  · rename_i positive
    have room : available held frozen = held - frozen := max_eq_right positive.le
    have nonneg : 0 ≤ min (held - frozen) left := le_min positive.le some
    have cut := toInt_le_of_nonneg nonneg
    have taken : 0 ≤ toInt (min (held - frozen) left) := by
      refine toInt_nonneg_iff.mpr ⟨by linarith, ?_⟩
      exact (min_le_right _ _).trans_lt fits
    constructor
    · simp
    · simpa using taken
    · simp
    · simpa [room] using cut.trans (min_le_left _ _)
    · simpa using cut.trans (min_le_right _ _)
    · intro left_whole room_whole
      rw [room] at room_whole ⊢
      have exact_part := toInt_eq_iff.mpr
        ⟨room_whole.min left_whole, by linarith, (min_le_right _ _).trans_lt fits⟩
      simp only [exact_part]
      grind
  · rename_i none
    have room : available held frozen = 0 := max_eq_left (not_lt.mp none)
    refine takes_nothing offset (available_nonneg _ _) left some fun _ _ => ?_
    rw [room, sub_zero, max_eq_right some]

/-- Where nothing is left, nothing is taken. -/
theorem closeRest_takes (req : OrderRequest) (offset : Offset) (held frozen : ℚ) (some : 0 ≤ left)
    (fits : left < 2 ^ 31) :
    Takes offset (available held frozen) left
      (if 0 < left then closePart req offset (held - frozen) left else ([], left)) := by
  split
  · exact closePart_takes req offset held frozen some fits
  · rename_i done
    refine takes_nothing offset (available_nonneg _ _) left some fun _ _ => ?_
    have nonneg := available_nonneg held frozen
    grind

end Parts

/-- What is left is opened. -/
theorem volumeAt_rest (req : OrderRequest) {left : ℚ} (rest : 0 ≤ left) (offset : Offset) :
    volumeAt offset (if 0 < left then [{ req with offset := .opening, volume := left }] else []) =
      if .opening = offset then left else 0 := by
  split
  · rw [volumeAt_singleton]
  · grind [volumeAt_nil]

theorem closable_nonneg (leg : Leg) (req : OrderRequest) (offset : Offset) :
    0 ≤ closable leg req offset := by
  unfold closable
  cases offset <;> simp only <;> grind [available_nonneg]

theorem WholeLots.closable {leg : Leg} {req : OrderRequest} (whole : WholeLots leg req)
    (offset : Offset) : Whole (PositionHolding.closable leg req offset) := by
  unfold PositionHolding.closable available
  cases offset with
  | none => exact .zero
  | opening => exact .zero
  | close => exact iteInduction (fun _ => .zero) fun _ => Whole.zero.max whole.pos
  | closeToday => exact iteInduction (fun _ => Whole.zero.max whole.td) fun _ => .zero
  | closeYesterday => exact iteInduction (fun _ => Whole.zero.max whole.yd) fun _ => .zero

/-- Two closing parts, and what they leave. -/
theorem nets_of_takes {leg : Leg} {req : OrderRequest} {a b : Offset}
    {one two : List OrderRequest × ℚ} (apart : a ≠ b) (closes : a ≠ .opening ∧ b ≠ .opening)
    (first : Takes a (closable leg req a) req.volume one)
    (second : Takes b (closable leg req b) one.2 two)
    (both : closable leg req .closeToday + closable leg req .closeYesterday +
      closable leg req .close = closable leg req a + closable leg req b) :
    Nets leg req (one.1 ++ two.1 ++
      if 0 < two.2 then [{ req with offset := .opening, volume := two.2 }] else []) := by
  have rest := second.rest
  have nonneg := closable_nonneg leg req b
  constructor
  · have opened : ((if 0 < two.2 then [{ req with offset := .opening, volume := two.2 }]
        else []).map OrderRequest.volume).sum = two.2 := by
      split
      · simp
      · grind
    rw [List.map_append, List.map_append, List.sum_append, List.sum_append, opened]
    linarith [first.total, second.total]
  · intro r mem
    rcases List.mem_append.mp mem with mem | mem
    · exact (List.mem_append.mp mem).elim (first.nonneg r) (second.nonneg r)
    · obtain ⟨some, rfl⟩ := by simpa using mem
      exact rest
  · intro offset other
    have room := closable_nonneg leg req offset
    rw [volumeAt_append, volumeAt_append, first.volumeAt_eq, second.volumeAt_eq,
      volumeAt_rest req rest, if_neg (Ne.symm other), add_zero]
    by_cases today : a = offset
    · subst today
      simpa [apart.symm] using first.limit_le
    · by_cases yesterday : b = offset
      · subst yesterday
        simpa [apart] using second.limit_le
      · simpa [today, yesterday] using room
  · intro whole
    have left := first.whole whole.volume (whole.closable a)
    have last := second.whole (left ▸ Whole.zero.max (whole.volume.sub (whole.closable a)))
      (whole.closable b)
    rw [volumeAt_append, volumeAt_append, first.volumeAt_eq, second.volumeAt_eq,
      volumeAt_rest req rest, if_neg closes.1, if_neg closes.2, if_pos rfl, both]
    grind

/-- A conversion for net keeps the volume of the request, and opens nothing of it that it could
still close. -/
theorem nets_convert (h : PositionHolding) (req : OrderRequest) (volume : 0 < req.volume)
    (fits : req.volume < 2 ^ 31) :
    Nets (h.closedBy req.direction) req (h.convertOrderRequestNet req) := by
  unfold convertOrderRequestNet
  generalize h.closedBy req.direction = leg
  simp only
  split
  · rename_i shfe
    have today : closable leg req .closeToday = available leg.td leg.tdFrozen := by
      simp [closable, shfe]
    have yesterday : closable leg req .closeYesterday = available leg.yd leg.ydFrozen := by
      simp [closable, shfe]
    have first := closePart_takes req .closeToday leg.td leg.tdFrozen volume.le fits
    have second := closeRest_takes req .closeYesterday leg.yd leg.ydFrozen first.rest
      (first.rest_le.trans_lt fits)
    rw [← today] at first
    rw [← yesterday] at second
    exact nets_of_takes (by decide) (by decide) first second (by simp [closable, shfe])
  · rename_i other
    have nothing : closable leg req .closeToday = 0 := by simp [closable, other]
    have everything : closable leg req .close = available leg.pos leg.posFrozen := by
      simp [closable, other]
    have first : Takes .closeToday (closable leg req .closeToday) req.volume ([], req.volume) :=
      takes_nothing _ nothing.ge _ volume.le fun _ _ => by
        rw [nothing, sub_zero, max_eq_right volume.le]
    have second := closePart_takes req .close leg.pos leg.posFrozen volume.le fits
    rw [← everything] at second
    exact nets_of_takes (by decide) (by decide) first second (by simp [closable, other])

/-- Eight lots against a position of six: one of today's and five of yesterday's are closed. -/
theorem nets_eight :
    Nets ((reached .sorted rb [.updatePosition (longOf 6 5)]).closedBy .short) (sells .close 8)
      ((reached .sorted rb [.updatePosition (longOf 6 5)]).convertOrderRequestNet
        (sells .close 8)) :=
  nets_convert _ (sells .close 8) (by norm_num [sells]) (by norm_num [sells])

end PositionHolding

end KeenTrader.Engine
