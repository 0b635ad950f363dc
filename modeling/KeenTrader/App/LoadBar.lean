import KeenTrader.Engine.Symbols
import KeenTrader.Engine.Utility
import KeenTrader.App.CtaEngine

/-!
# Loading bars

`load_bar` asks an exchange or the data feed for the bars of a strategy's contract, which it knows
only by its `kt_symbol`. The symbol is split again, although a symbol may have dots of its own, and
although `add_strategy` has only looked for a dot anywhere in the text.
-/

namespace KeenTrader.App

open KeenTrader.Engine

/-- Where the bars come from. -/
inductive BarQuery where
  | nothing
  | history (req : HistoryRequest) (exchangeName : AString)
  | datafeed (symbol : AString) (exchange : Exchange) (interval : Interval) (start stop : DateTime)
  deriving DecidableEq

/-- Bars are asked for, if at all, of this contract. -/
def BarQuery.AsksFor (symbol : AString) (exchange : Exchange) : BarQuery → Prop
  | nothing => True
  | history req _ => req.symbol = symbol ∧ req.exchange = exchange
  | datafeed symbol' exchange' .. => symbol' = symbol ∧ exchange' = exchange

namespace CtaEngine

/-- What `load_bar` asks for at the time `now`. -/
def barQuery (s : CtaEngine) (ktSymbol : AString) (days : ℚ) (interval : Interval)
    (useDatabase : Bool) (now : DateTime) : Except SymbolFault BarQuery := do
  let (symbol, exchange) ← extractKtSymbol ktSymbol
  let start := now - toInt (cround (days * 24)) * (60 * 60 * 1000)
  if useDatabase then pure .nothing
  else
    match s.oms.getContract ktSymbol with
    | some contract =>
      if contract.historyData then
        pure (.history { symbol, exchange, start, «end» := now, interval } contract.exchangeName)
      else pure (.datafeed symbol exchange interval start now)
    | none => pure (.datafeed symbol exchange interval start now)

/-- `load_bar`, where `queryHistory` is the answer of the exchange. The data feed has no bars. -/
def loadBar (queryHistory : HistoryRequest → AString → List BarData) (s : CtaEngine)
    (ktSymbol : AString) (days : ℚ) (interval : Interval) (useDatabase : Bool) (now : DateTime) :
    Except SymbolFault (List BarData) := do
  match ← s.barQuery ktSymbol days interval useDatabase now with
  | .history req exchangeName => pure (queryHistory req exchangeName)
  | .nothing | .datafeed .. => pure []

variable {s : CtaEngine} {ktSymbol symbol : AString} {exchange : Exchange} {days : ℚ}
  {interval : Interval} {useDatabase : Bool} {now : DateTime}

/-- Bars are asked for of the contract that is extracted, and of none where that fails. -/
theorem barQuery_of_ok (extracted : extractKtSymbol ktSymbol = .ok (symbol, exchange)) :
    ∃ q, s.barQuery ktSymbol days interval useDatabase now = .ok q ∧ q.AsksFor symbol exchange := by
  unfold barQuery
  rw [extracted]
  simp only [bind, Except.bind]
  split
  · exact ⟨_, rfl, trivial⟩
  split
  · split
    · exact ⟨_, rfl, rfl, rfl⟩
    · exact ⟨_, rfl, rfl, rfl⟩
  · exact ⟨_, rfl, rfl, rfl⟩

theorem barQuery_of_error {fault : SymbolFault} (failed : extractKtSymbol ktSymbol = .error fault) :
    s.barQuery ktSymbol days interval useDatabase now = .error fault := by
  unfold barQuery
  rw [failed]
  rfl

/-! ## Symbols that come back -/

/-- A symbol and its exchange are read from the `kt_symbol` that is made of them, and so
`load_bar` asks for their bars. -/
structure ComesBack (symbol : AString) (exchange : Exchange) : Prop where
  extracted : extractKtSymbol (ktSymbolOf symbol exchange) = .ok (symbol, exchange)
  asked : ∀ (s : CtaEngine) days interval useDatabase now, ∃ q,
    s.barQuery (ktSymbolOf symbol exchange) days interval useDatabase now = .ok q ∧
      q.AsksFor symbol exchange

/-- Exactly the symbols without a dot come back. -/
theorem comesBack_iff (symbol : AString) (exchange : Exchange) :
    ComesBack symbol exchange ↔ '.' ∉ symbol.toList := by
  constructor
  · intro back
    refine undotted_of_extractKtSymbol ?_ back.extracted
    simp [ktSymbolOf]
  · intro undotted
    have extracted := extractKtSymbol_ktSymbolOf undotted exchange
    exact ⟨extracted, fun _ _ _ _ _ => barQuery_of_ok extracted⟩

/-- A share class that is written behind a dot. -/
theorem dotted_symbol_lost :
    ¬ ∀ (symbol : AString) (exchange : Exchange), symbol ≠ "" → ComesBack symbol exchange := by
  intro all
  have dotted := (comesBack_iff "BRK.B" .nyse).mp (all "BRK.B" .nyse (by decide))
  exact dotted (by decide)

/-! ## Symbols that are accepted -/

/-- Both pieces that are read of a `kt_symbol` are there, whenever its bars are loaded. -/
structure PiecesThere (ktSymbol : AString) : Prop where
  two : 2 ≤ (stringSplit ktSymbol ".").length
  loads : ∀ (s : CtaEngine) days interval useDatabase now,
    s.barQuery ktSymbol days interval useDatabase now ≠ .error .missingPiece

theorem piecesThere_iff_length :
    PiecesThere ktSymbol ↔ 2 ≤ (stringSplit ktSymbol ".").length := by
  refine ⟨PiecesThere.two, fun two => ⟨two, fun s days interval useDatabase now missing => ?_⟩⟩
  cases extracted : extractKtSymbol ktSymbol with
  | ok contract =>
    have asked : ∃ q, s.barQuery ktSymbol days interval useDatabase now = .ok q ∧ _ :=
      barQuery_of_ok extracted
    obtain ⟨q, asked, -⟩ := asked
    rw [asked] at missing
    cases missing
  | error fault =>
    rw [barQuery_of_error extracted] at missing
    obtain rfl := Except.error.inj missing
    exact absurd ((missingPiece_iff ktSymbol).mp extracted) two.not_gt

/-- A symbol that `add_strategy` accepts has both pieces exactly where something follows its first
dot. -/
theorem piecesThere_iff (s : CtaEngine) (className strategyName ktSymbol : AString)
    (accepted : ¬s.AddRefused className strategyName ktSymbol) :
    PiecesThere ktSymbol ↔ ktSymbol.toList.dropWhile (· ≠ '.') ≠ ['.'] := by
  have dot : '.' ∈ ktSymbol.toList := by
    by_contra absent
    exact accepted (.inr (.inr absent))
  obtain ⟨first, rest, text, absent⟩ := List.eq_append_cons_of_mem dot
  have dropped : ktSymbol.toList.dropWhile (· ≠ '.') = '.' :: rest := by
    rw [text, List.dropWhile_append_of_pos (by grind)]
    simp
  rw [piecesThere_iff_length, stringSplit_first absent text, dropped, List.length_cons]
  have empty : splitFrom ['.'] [] rest = [] ↔ [] = [] ∧ rest = [] := splitFrom_eq_nil_iff
  rw [← List.length_eq_zero_iff] at empty
  grind

/-- An engine that knows one class of strategies. -/
def oneClass : CtaEngine := { classes := {"Dual"} }

theorem ordinary_pieces_there : PiecesThere "rb2410.SHFE" :=
  (piecesThere_iff oneClass "Dual" "alpha" "rb2410.SHFE" (by
    unfold AddRefused
    decide +kernel)).mpr (by decide)

/-- The name of the exchange has been forgotten, but not the dot. -/
theorem ending_dot_accepted :
    ¬ ∀ (s : CtaEngine) (className strategyName ktSymbol : AString),
      ¬s.AddRefused className strategyName ktSymbol → PiecesThere ktSymbol := by
  intro all
  have there := (all oneClass "Dual" "alpha" "rb2410." (by
    unfold AddRefused
    decide +kernel)).two
  exact absurd there (by decide +kernel)

end CtaEngine

end KeenTrader.App
