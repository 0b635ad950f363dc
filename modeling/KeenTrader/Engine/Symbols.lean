import KeenTrader.Engine.Object

/-!
# Symbols with their exchange

A `kt_symbol` is a symbol, a dot and the name of an exchange. `StringSplit` cuts a text at each of
its delimiters, and `extract_kt_symbol` takes the first two pieces of what it gets. A piece that is
not there is read all the same, which has no defined result.
-/

namespace KeenTrader.Engine

/-! ## Splitting -/

/-- The loop of `StringSplit`, where `piece` has been read since the last delimiter. There is no
piece behind a delimiter that ends the text. -/
def splitFrom (delim : List Char) : List Char → List Char → List AString
  | [], [] => []
  | piece, [] => [String.ofList piece]
  | piece, c :: cs =>
    if c ∈ delim then String.ofList piece :: splitFrom delim [] cs
    else splitFrom delim (piece ++ [c]) cs

def stringSplit (str delim : AString) : List AString := splitFrom delim.toList [] str.toList

example : ["a.b.", ".a", ".", "a..b"].map (stringSplit · ".") =
    [["a", "b"], ["", "a"], [""], ["a", "", "b"]] := by
  decide +kernel

variable {delim piece cs rest : List Char} {c : Char}

theorem splitFrom_delimiter (here : c ∈ delim) :
    splitFrom delim piece (c :: cs) = String.ofList piece :: splitFrom delim [] cs := by
  rw [splitFrom, if_pos here]

/-- A piece that no delimiter ends is the last one, unless it is empty. -/
theorem splitFrom_last (absent : ∀ c ∈ cs, c ∉ delim) :
    splitFrom delim piece cs = if piece ++ cs = [] then [] else [String.ofList (piece ++ cs)] := by
  induction cs generalizing piece with
  | nil => cases piece <;> simp [splitFrom]
  | cons c cs ih =>
    obtain ⟨here, later⟩ := List.forall_mem_cons.mp absent
    rw [splitFrom, if_neg here, ih later]
    simp

/-- The first delimiter ends the first piece. -/
theorem splitFrom_first (absent : ∀ c ∈ cs, c ∉ delim) (ends : c ∈ delim) :
    splitFrom delim piece (cs ++ c :: rest) =
      String.ofList (piece ++ cs) :: splitFrom delim [] rest := by
  induction cs generalizing piece with
  | nil => simpa using splitFrom_delimiter ends
  | cons d cs ih =>
    obtain ⟨here, later⟩ := List.forall_mem_cons.mp absent
    rw [List.cons_append, splitFrom, if_neg here, ih later]
    simp

theorem splitFrom_eq_nil_iff : splitFrom delim piece cs = [] ↔ piece = [] ∧ cs = [] := by
  induction cs generalizing piece with
  | nil => cases piece <;> simp [splitFrom]
  | cons c cs ih =>
    rw [splitFrom]
    split <;> simp [ih]

/-! ## The exchange of a symbol -/

namespace Exchange

/-- `magic_enum::enum_values`. -/
def values : List Exchange :=
  [.cffex, .shfe, .czce, .dce, .ine, .gfex, .sse, .szse, .bse, .shhk, .szhk, .sge, .wxe, .cfets,
   .xbond, .smart, .nyse, .nasdaq, .arca, .edgea, .island, .bats, .iex, .amex, .tse, .nymex,
   .comex, .globex, .idealpro, .cme, .ice, .sehk, .hkfe, .sgx, .cbot, .cboe, .cfe, .dme, .eurex,
   .apex, .lme, .bmd, .tocom, .eunx, .krx, .otc, .ibkrats, .localData, .bitmex, .okx, .huobi,
   .bitfinex, .binance, .bybit, .coinbase, .bitstamp]

end Exchange

/-- `magic_enum::enum_cast`. -/
def strToExchange (exchange : AString) : Option Exchange :=
  Exchange.values.find? (exchangeToStr · = exchange)

@[simp] theorem strToExchange_exchangeToStr (e : Exchange) :
    strToExchange (exchangeToStr e) = some e := by
  cases e <;> decide +kernel

theorem dot_not_mem_exchangeToStr (e : Exchange) : '.' ∉ (exchangeToStr e).toList := by
  cases e <;> decide +kernel

theorem exchangeToStr_ne_empty (e : Exchange) : (exchangeToStr e).toList ≠ [] := by
  cases e <;> decide +kernel

/-- What ends `extract_kt_symbol` early: a piece that the text lacks, or a name that no exchange
has. -/
inductive SymbolFault where
  | missingPiece
  | unknownExchange
  deriving DecidableEq, Repr

def pieceAt (ret : List AString) (position : ℕ) : Except SymbolFault AString :=
  match ret[position]? with
  | some piece => .ok piece
  | none => .error .missingPiece

def extractKtSymbol (ktSymbol : AString) : Except SymbolFault (AString × Exchange) := do
  let ret := stringSplit ktSymbol "."
  let symbol ← pieceAt ret 0
  let exchangeStr ← pieceAt ret 1
  match strToExchange exchangeStr with
  | some exchange => pure (symbol, exchange)
  | none => throw .unknownExchange

theorem extractKtSymbol_of_split {ktSymbol symbol exchangeStr : AString} {more : List AString}
    (split : stringSplit ktSymbol "." = symbol :: exchangeStr :: more) :
    extractKtSymbol ktSymbol =
      match strToExchange exchangeStr with
      | some exchange => .ok (symbol, exchange)
      | none => .error .unknownExchange := by
  unfold extractKtSymbol
  rw [split]
  cases found : strToExchange exchangeStr <;> simp [pieceAt, found, bind, Except.bind] <;> rfl

/-- Both pieces are there exactly where the text is split into two pieces at least. -/
theorem missingPiece_iff (ktSymbol : AString) :
    extractKtSymbol ktSymbol = .error .missingPiece ↔ (stringSplit ktSymbol ".").length < 2 := by
  match split : stringSplit ktSymbol "." with
  | [] | [_] => simp [extractKtSymbol, split, pieceAt, bind, Except.bind]
  | symbol :: exchangeStr :: more =>
    rw [extractKtSymbol_of_split split]
    cases strToExchange exchangeStr <;> simp

theorem stringSplit_first {k : AString} {first rest : List Char} (absent : '.' ∉ first)
    (text : k.toList = first ++ '.' :: rest) :
    stringSplit k "." = String.ofList first :: splitFrom ['.'] [] rest := by
  have dot : ".".toList = ['.'] := rfl
  rw [stringSplit, dot, text]
  exact splitFrom_first (by grind) (List.mem_singleton_self _)

/-- A symbol without a dot comes back with its exchange. -/
theorem extractKtSymbol_ktSymbolOf {symbol : AString} (undotted : '.' ∉ symbol.toList)
    (e : Exchange) : extractKtSymbol (ktSymbolOf symbol e) = .ok (symbol, e) := by
  have text : (ktSymbolOf symbol e).toList = symbol.toList ++ '.' :: (exchangeToStr e).toList := by
    simp [ktSymbolOf]
  have name := dot_not_mem_exchangeToStr e
  have split : stringSplit (ktSymbolOf symbol e) "." = [symbol, exchangeToStr e] := by
    rw [stringSplit_first undotted text, splitFrom_last (by grind), List.nil_append,
      if_neg (exchangeToStr_ne_empty e)]
    simp
  rw [extractKtSymbol_of_split split]
  simp

/-- What is extracted has no dot in its symbol. -/
theorem undotted_of_extractKtSymbol {k symbol : AString} {e : Exchange} (dot : '.' ∈ k.toList)
    (extracted : extractKtSymbol k = .ok (symbol, e)) : '.' ∉ symbol.toList := by
  obtain ⟨first, rest, text, absent⟩ := List.eq_append_cons_of_mem dot
  have split := stringSplit_first absent text
  match behind : splitFrom ['.'] [] rest with
  | [] =>
    have missing : extractKtSymbol k = .error .missingPiece := by
      rw [missingPiece_iff, split, behind]
      simp
    simp [missing] at extracted
  | exchangeStr :: more =>
    rw [extractKtSymbol_of_split (split.trans (by rw [behind]))] at extracted
    cases found : strToExchange exchangeStr with
    | none => simp [found] at extracted
    | some e' =>
      simp only [found, Except.ok.injEq, Prod.mk.injEq] at extracted
      rwa [← extracted.1, String.toList_ofList]

end KeenTrader.Engine
