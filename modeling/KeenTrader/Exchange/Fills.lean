import KeenTrader.Library.Runs
import KeenTrader.Exchange.BinanceReports

/-!
# The fills of an order on Binance

An order's fills are pushed one by one, each with the volume filled so far. The volume that is
passed on as a trade is the fill rounded to the smallest volume of the contract, so that what is
traded follows what is filled only where every fill is a multiple of that volume.
-/

namespace KeenTrader.Exchange.BinanceUserApi

open Std (ExtTreeMap)
open KeenTrader.Engine Handlers Runs Binance
open BinanceExchange (exchangeName)

/-- An `ORDER_TRADE_UPDATE` packet of the order `orderid` on the instrument `name`. The id of the
trade may have any type, or be missing. -/
structure Update (name orderid : AString) where
  packet : Json.Value
  ord : Json.Value
  lastFill : ℚ
  filled : ℚ
  event : packet.get? "e" = some (.string "ORDER_TRADE_UPDATE")
  ord_eq : packet.get? "o" = some ord
  name_eq : ord.get? "s" = some (.string name)
  orderid_eq : ord.get? "c" = some (.string orderid)
  lastFill_eq : jsonToFloat <$> ord.get "l" = .ok lastFill
  filled_eq : jsonToFloat <$> ord.get "z" = .ok filled
  texts : ∀ field ∈ [("o", ""), ("f", "GTC"), ("S", ""), ("X", "")],
    ∃ text, ord.stringOr field.1 field.2 = .ok text
  quantities : ∀ key ∈ ["p", "q", "L"], ∃ q, jsonToFloat <$> ord.get key = .ok q
  times : (∃ n, packet.valueOr (Json.Value.long? fun q => q.num.tdiv q.den) "E" 0 = .ok n) ∧
    ∃ n, ord.valueOr (Json.Value.long? fun q => q.num.tdiv q.den) "T" 0 = .ok n

variable {name orderid : AString} {s : BinanceExchange} {contract : ContractData}
  {minVolume : ℚ}

namespace Update

/-- The id of the trade is a text, or missing. -/
def HasTradeid (u : Update name orderid) : Prop :=
  (u.ord.stringOr "t" "").isOk = true

instance (u : Update name orderid) : Decidable u.HasTradeid :=
  inferInstanceAs (Decidable (_ = true))

/-- The volume that is passed on as a trade. -/
def passed (minVolume : ℚ) (u : Update name orderid) : ℚ :=
  if 0 < roundTo u.lastFill minVolume ∧ u.HasTradeid then roundTo u.lastFill minVolume else 0

/-- The fill is a multiple of the smallest volume, and its trade has a readable id. -/
structure Exact (minVolume : ℚ) (u : Update name orderid) : Prop where
  multiple : ∃ k : ℕ, k < 2 ^ 31 ∧ u.lastFill = k * minVolume
  tradeid : u.lastFill ≠ 0 → u.HasTradeid

theorem passed_eq_iff (pos : 0 < minVolume) (u : Update name orderid) :
    u.passed minVolume = u.lastFill ↔ u.Exact minVolume := by
  constructor
  · intro same
    unfold passed at same
    split at same
    · rename_i traded
      obtain ⟨positive, readable⟩ := traded
      refine ⟨⟨(toInt (cround (u.lastFill / minVolume))).toNat, ?_, ?_⟩, fun _ => readable⟩
      · have := toInt_lt (cround (u.lastFill / minVolume))
        omega
      · have count : 0 < toInt (cround (u.lastFill / minVolume)) := by
          have : (0 : ℚ) < toInt (cround (u.lastFill / minVolume)) :=
            (pos_iff_pos_of_mul_pos positive).mpr pos
          exact_mod_cast this
        have nat : ((toInt (cround (u.lastFill / minVolume))).toNat : ℚ) =
            toInt (cround (u.lastFill / minVolume)) := by
          exact_mod_cast Int.toNat_of_nonneg count.le
        rw [nat]
        exact same.symm
    · exact ⟨⟨0, by norm_num, by simp [← same]⟩, fun ne => absurd same.symm ne⟩
  · rintro ⟨⟨k, small, multiple⟩, tradeid⟩
    have rounded : roundTo u.lastFill minVolume = u.lastFill := by
      have := roundTo_multiple (n := k) minVolume (by omega) (by exact_mod_cast small)
        pos
      rw [multiple]
      exact_mod_cast this
    unfold passed
    rw [rounded]
    split
    · rfl
    · rename_i nothing
      have zero : ¬0 < u.lastFill := fun positive => nothing ⟨positive, tradeid positive.ne'⟩
      have nonneg : 0 ≤ u.lastFill := by
        rw [multiple]
        positivity
      exact (le_antisymm (not_lt.mp zero) nonneg).symm

end Update

/-! ## Handling one update -/

/-- The volume of the trade that the effect announces, if it announces one. -/
def tradeVolume? : Effect → Option ℚ
  | .trade t => some t.volume
  | _ => none

/-- The volume of all trades that have been announced. -/
def traded (trace : List Effect) : ℚ := (trace.filterMap tradeVolume?).sum

theorem traded_append (first second : List Effect) :
    traded (first ++ second) = traded first + traded second := by
  simp [traded]

variable (contract) in
theorem exec_parseOrder (u : Update name orderid) (type : Engine.OrderType) (now : DateTime)
    (s : BinanceExchange) :
    ∃ o, (parseOrder u.packet u.ord type contract now).exec s = (.ok o, s) := by
  obtain ⟨side, side_eq⟩ := u.texts ("S", "") (by simp)
  obtain ⟨status, status_eq⟩ := u.texts ("X", "") (by simp)
  obtain ⟨price, price_eq⟩ := u.quantities "p" (by simp)
  obtain ⟨volume, volume_eq⟩ := u.quantities "q" (by simp)
  obtain ⟨⟨evt, evt_eq⟩, -⟩ := u.times
  unfold parseOrder floatAt longOr
  rw [exec_read_bind_ok (Json.Value.stringOr_of_get? u.orderid_eq), exec_read_bind_ok price_eq,
    exec_read_bind_ok volume_eq, exec_read_bind_ok u.filled_eq, exec_read_bind_ok side_eq,
    exec_read_bind_ok status_eq, exec_read_bind_ok evt_eq]
  exact ⟨_, rfl⟩

variable (contract) in
/-- A fill announces a trade of the volume that is passed on, or none. -/
theorem exec_onFill (u : Update name orderid) (o : OrderData) (now : DateTime)
    (s : BinanceExchange) :
    ∃ result new,
      (onFill u.ord o contract now).exec s = (result, { s with trace := s.trace ++ new }) ∧
        traded new = u.passed contract.minVolume := by
  obtain ⟨price, price_eq⟩ := u.quantities "L" (by simp)
  obtain ⟨-, ttime, ttime_eq⟩ := u.times
  unfold onFill floatAt longOr Update.passed
  rw [exec_read_bind_ok u.lastFill_eq]
  by_cases nothing : roundTo u.lastFill contract.minVolume ≤ 0
  · rw [if_pos nothing, if_neg fun pos => absurd nothing (not_le.mpr pos.1)]
    exact ⟨.ok (), [], by simp, rfl⟩
  · rw [if_neg nothing]
    cases tradeid : u.ord.stringOr "t" "" with
    | error e =>
      have unreadable : ¬u.HasTradeid := by
        simp [Update.HasTradeid, tradeid, Except.isOk, Except.toBool]
      rw [if_neg fun pos => unreadable pos.2, exec_read_bind_error rfl]
      exact ⟨.error (.json e), [], by simp, rfl⟩
    | ok t =>
      have readable : u.HasTradeid := by
        simp [Update.HasTradeid, tradeid, Except.isOk, Except.toBool]
      rw [if_pos ⟨not_le.mp nothing, readable⟩, exec_read_bind_ok rfl, exec_read_bind_ok price_eq,
        exec_read_bind_ok ttime_eq]
      exact ⟨_, [_], rfl, by simp [traded, tradeVolume?]⟩

theorem Update.not_null (u : Update name orderid) : u.packet.isNull = false :=
  Json.Value.isNull_of_get? u.event

/-- The spec of one update: the known contracts stay, and the trades grow by what is passed on. -/
theorem onText_update (known : s.getContractByName name = some contract) (now : DateTime)
    (u : Update name orderid) :
    (onText s now u.packet).getContractByName name = some contract ∧
      ∃ new, (onText s now u.packet).trace = s.trace ++ new ∧
        traded new = u.passed contract.minVolume := by
  obtain ⟨type, type_eq⟩ := u.texts ("o", "") (by simp)
  obtain ⟨tif, tif_eq⟩ := u.texts ("f", "GTC") (by simp)
  obtain ⟨o, parsed⟩ := exec_parseOrder contract u (orderTypeOf type tif) now s
  obtain ⟨result, new, filled, passed⟩ := exec_onFill contract u o now (s.onOrder o)
  have handled : (onPacket now u.packet).exec s =
      (result, { s.onOrder o with trace := (s.onOrder o).trace ++ new }) := by
    unfold onPacket onOrder
    rw [u.event]
    dsimp only
    rw [exec_read_bind_ok (r := (Json.Value.string _).string?) rfl, if_neg (by decide), if_pos rfl,
      u.ord_eq]
    dsimp only
    rw [exec_read_bind_ok type_eq, exec_read_bind_ok tif_eq,
      exec_read_bind_ok (Json.Value.stringOr_of_get? u.name_eq), exec_get_bind, known]
    dsimp only
    rw [exec_bind_ok parsed, exec_modify_bind, filled]
  cases result with
  | ok _ =>
    unfold onText
    rw [onText_ok u.not_null handled]
    refine ⟨known, .order o :: new, by simp [BinanceExchange.onOrder, BinanceExchange.emit], ?_⟩
    rw [← passed]
    rfl
  | error fault =>
    unfold onText
    rw [onText_error u.not_null handled]
    refine ⟨known, .order o :: (new ++ [.error fault]),
      by simp [BinanceExchange.onOrder, BinanceExchange.emit], ?_⟩
    have silent : traded (.order o :: (new ++ [.error fault])) = traded new := by
      simp [traded, List.filterMap_cons, tradeVolume?]
    rw [silent, passed]

/-! ## All updates of an order -/

/-- The volume filled so far starts at `z` and grows by each fill. -/
def Grows : ℚ → List (DateTime × Update name orderid) → Prop
  | _, [] => True
  | z, (_, u) :: us => u.filled = z + u.lastFill ∧ Grows u.filled us

/-- The volume that has been filled after some updates. -/
def filledAfter (us : List (DateTime × Update name orderid)) : ℚ :=
  (us.map (·.2.filled)).getLastD 0

def feed (s : BinanceExchange) (u : DateTime × Update name orderid) : BinanceExchange :=
  onText s u.1 u.2.packet

/-- The volume of the trades on the way from `s` to `t`. -/
def tradedSince (s t : BinanceExchange) : ℚ := traded (t.trace.drop s.trace.length)

theorem feed_trades (known : s.getContractByName name = some contract)
    (us : List (DateTime × Update name orderid)) :
    ∃ new, (us.foldl feed s).trace = s.trace ++ new ∧
      traded new = (us.map fun u => u.2.passed contract.minVolume).sum := by
  refine exists_appended (P := fun s => s.getContractByName name = some contract) rfl traded_append
    (fun s known u _ => ?_) known
  exact onText_update known u.1 u.2

theorem Grows.last {z : ℚ} {us : List (DateTime × Update name orderid)} (grows : Grows z us) :
    (us.map (·.2.filled)).getLastD z = z + (us.map fun u => u.2.lastFill).sum := by
  induction us generalizing z with
  | nil => simp
  | cons u us ih =>
    obtain ⟨first, rest⟩ := grows
    rw [List.map_cons, List.getLastD_cons, ih rest, first, List.map_cons, List.sum_cons, add_assoc]

theorem Grows.take {z : ℚ} {done us : List (DateTime × Update name orderid)} (grows : Grows z us)
    (pre : done <+: us) : Grows z done := by
  induction done generalizing z us with
  | nil => trivial
  | cons u done ih =>
    obtain ⟨rest, rfl⟩ := pre
    exact ⟨grows.1, ih grows.2 (List.prefix_append _ _)⟩

/-- After every one of the updates the trades add up to what has been filled exactly if each fill
is a multiple of the smallest volume whose trade has a readable id. -/
theorem trades_add_up_iff (known : s.getContractByName name = some contract)
    (pos : 0 < contract.minVolume) (us : List (DateTime × Update name orderid))
    (grows : Grows 0 us) :
    (∀ done, done <+: us → tradedSince s (done.foldl feed s) = filledAfter done) ↔
      ∀ u ∈ us, u.2.Exact contract.minVolume := by
  have sums : ∀ done, done <+: us →
      (tradedSince s (done.foldl feed s) = filledAfter done ↔
        (done.map fun u => u.2.passed contract.minVolume).sum =
          (done.map fun u => u.2.lastFill).sum) := by
    intro done pre
    obtain ⟨new, trace, passed⟩ := feed_trades known done
    have filled := (grows.take pre).last
    rw [zero_add] at filled
    rw [tradedSince, trace, List.drop_left, passed, filledAfter, filled]
  rw [forall₂_congr sums, prefix_sums_iff]
  exact forall₂_congr fun u _ => u.2.passed_eq_iff pos

section OneOrder

def btcUsdt : ContractData :=
  { symbol := "BTCUSDT_SWAP", exchange := .binance, name := "BTCUSDT", product := .swap
    pricetick := 1 / 10, minVolume := 1, exchangeName := "BINANCE" }

def fillJson (l z : ℚ) : Json.Value :=
  .object
    [("L", .float 50000), ("S", .string "BUY"), ("X", .string "PARTIALLY_FILLED"),
     ("c", .string "1"), ("f", .string "GTC"), ("l", .float l), ("o", .string "LIMIT"),
     ("p", .float 50000), ("q", .float 10), ("s", .string "BTCUSDT"), ("t", .string "77"),
     ("z", .float z)]

/-- The fill of `l` after which `z` has been filled. -/
def fillOf (l z : ℚ) : Update "BTCUSDT" "1" where
  packet := .object [("e", .string "ORDER_TRADE_UPDATE"), ("o", fillJson l z)]
  ord := fillJson l z
  lastFill := l
  filled := z
  event := rfl
  ord_eq := rfl
  name_eq := rfl
  orderid_eq := rfl
  lastFill_eq := rfl
  filled_eq := rfl
  texts := by
    simp [fillJson, Json.Value.stringOr, Json.Value.valueOr, List.lookup, Json.Value.string?]
  quantities := by simp [fillJson, Json.Value.get, List.lookup, jsonToFloat]
  times := by simp [fillJson, Json.Value.valueOr, List.lookup]

theorem known_btcUsdt : (({} : BinanceExchange).onContract btcUsdt).getContractByName "BTCUSDT" =
    some btcUsdt := by decide +kernel

/-- Two whole fills add up. -/
theorem wholeFills_add_up :
    tradedSince (({} : BinanceExchange).onContract btcUsdt)
        ([(0, fillOf 2 2), (0, fillOf 3 5)].foldl feed
          (({} : BinanceExchange).onContract btcUsdt)) =
      filledAfter [(0, fillOf 2 2), (0, fillOf 3 5)] := by
  refine (trades_add_up_iff known_btcUsdt (by decide) _ ?_).mpr ?_ _ (List.prefix_refl _)
  · exact ⟨by norm_num [fillOf], by norm_num [fillOf], trivial⟩
  · have readable (l z : ℚ) : (fillOf l z).HasTradeid := rfl
    simp only [List.mem_cons, List.not_mem_nil, or_false, forall_eq_or_imp, forall_eq]
    exact ⟨⟨⟨2, by norm_num, by norm_num [fillOf, btcUsdt]⟩, fun _ => readable _ _⟩,
      ⟨⟨3, by norm_num, by norm_num [fillOf, btcUsdt]⟩, fun _ => readable _ _⟩⟩

/-- A fill below half of the smallest volume is dropped. -/
theorem smallFill_dropped :
    ¬ ∀ (name orderid : AString) (s : BinanceExchange) (contract : ContractData),
      s.getContractByName name = some contract → 0 < contract.minVolume →
      ∀ us : List (DateTime × Update name orderid), Grows 0 us →
        tradedSince s (us.foldl feed s) = filledAfter us := by
  intro all
  have same := all "BTCUSDT" "1" (({} : BinanceExchange).onContract btcUsdt) btcUsdt known_btcUsdt
    (by decide) [(0, fillOf (2 / 5) (2 / 5))] ⟨by norm_num [fillOf], trivial⟩
  exact absurd same (by decide +kernel)

end OneOrder

end KeenTrader.Exchange.BinanceUserApi
