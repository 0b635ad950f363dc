import KeenTrader.Exchange.Reports

/-!
# Account updates on Binance

An `ACCOUNT_UPDATE` packet lists the balances and the positions that have changed, so that what
`on_account` does not take from it is not told again. It takes a balance where it is not zero,
and a position where it is one of one-way mode. A balance that is given as text is read as a
number with a default, which throws, and with it the rest of the packet is lost.
-/

namespace KeenTrader.Exchange.BinanceUserApi

open Std (ExtTreeMap)
open KeenTrader.Engine Containers Handlers
open BinanceExchange (exchangeName)

structure AccountUpdate where
  packet : Json.Value
  event : packet.get? "e" = some (.string "ACCOUNT_UPDATE")

/-- The entries of one of the two lists of a packet. -/
def AccountUpdate.entries (u : AccountUpdate) (list : AString) : List Json.Value :=
  match u.packet.get? "a" with
  | some a => arrayAt a list
  | none => []

namespace AccountUpdate

/-! ## What is reported and what is stored -/

/-- A number, given as such or as text. -/
def amount? : Json.Value → Option ℚ
  | .string s => some (atof s)
  | .int n => some n
  | .float q => some q
  | _ => none

def amountAt (entry : Json.Value) (key : AString) : Option ℚ := (entry.get? key).bind amount?

/-- The entry has this text under the key. -/
def names (key text : AString) (entry : Json.Value) : Bool :=
  (entry.get? key).any (·.isString text)

/-- The last amount that is reported under a key, in the entries about one thing. -/
def lastAmount (about : Json.Value → Bool) (key : AString) (entries : List Json.Value) :
    Option ℚ :=
  (latest (fun entry => about entry && (amountAt entry key).isSome) entries).bind (amountAt · key)

/-- The word for a position side: one-way mode has one side only. -/
def positionSide : Direction → AString
  | .net => "BOTH"
  | .long => "LONG"
  | .short => "SHORT"

def receive (s : BinanceExchange) (u : DateTime × AccountUpdate) : BinanceExchange :=
  onText s u.1 u.2.packet

section Store
variable (enum : Enumeration AString OrderData) (s : BinanceExchange)
  (us : List (DateTime × AccountUpdate))

/-- The entries of all packets, one after the other. -/
def reported (list : AString) : List Json.Value := us.flatMap (·.2.entries list)

/-- The engine after it has processed the events of the packets. -/
def omsAfter : OmsEngine :=
  (newEvents s.trace (us.foldl receive s).trace).foldl (OmsEngine.process enum) {}

/-- Each asset is stored with the amounts that were last reported, and the position of each side
of an instrument is read under the key of that side. -/
structure Shown : Prop where
  balance : ∀ asset amount, lastAmount (names "a" asset) "wb" (reported us "B") = some amount →
    ∃ account, (omsAfter enum s us).getAccount (exchangeName ++ "." ++ asset) = some account ∧
      account.balance = amount
  available : ∀ asset amount, lastAmount (names "a" asset) "cw" (reported us "B") = some amount →
    ∃ account, (omsAfter enum s us).getAccount (exchangeName ++ "." ++ asset) = some account ∧
      account.available = amount
  position : ∀ name contract side amount, s.getContractByName name = some contract →
    lastAmount (fun pos => names "s" name pos && names "ps" (positionSide side) pos) "pa"
      (reported us "P") = some amount →
    ∃ position, (omsAfter enum s us).getPosition
        (ktSymbolOf contract.symbol .binance ++ "." ++ strDirection side) = some position ∧
      position.volume = amount

end Store

/-! ## What is taken -/

/-- The number under a key. -/
def number (entry : Json.Value) (key : AString) : ℚ :=
  match entry.valueOr Json.Value.number? key 0 with
  | .ok q => q
  | .error _ => 0

def text (entry : Json.Value) (key : AString) : AString :=
  match entry.stringOr key "" with
  | .ok s => s
  | .error _ => ""

/-- The key is missing, or there is a number under it. -/
def hasNumber (entry : Json.Value) (key : AString) : Bool :=
  (entry.valueOr Json.Value.number? key 0).isOk

def hasText (entry : Json.Value) (key : AString) : Bool := (entry.stringOr key "").isOk

def readableBalance (acc : Json.Value) : Bool :=
  hasText acc "a" && hasNumber acc "wb" && hasNumber acc "cw"

def contractOf (s : BinanceExchange) (pos : Json.Value) : Option ContractData :=
  s.getContractByName (text pos "s")

/-- The position is of another side, or of an instrument without a contract, or its numbers can
be read. -/
def readablePosition (s : BinanceExchange) (pos : Json.Value) : Bool :=
  hasText pos "ps" && (text pos "ps" ≠ "BOTH" || hasText pos "s" &&
    ((contractOf s pos).isNone || hasNumber pos "ep" && hasNumber pos "up"))

/-- The balances up to the first that cannot be read, without those that are zero. -/
def takenBalances (accs : List Json.Value) : List Json.Value :=
  (accs.takeWhile readableBalance).filter fun acc => number acc "wb" ≠ 0

/-- The positions of one-way mode up to the first that cannot be read. -/
def takenPositions (s : BinanceExchange) (poss : List Json.Value) : List Json.Value :=
  (poss.takeWhile (readablePosition s)).filter fun pos =>
    text pos "ps" = "BOTH" && (contractOf s pos).isSome

/-- The volume of a position, and zero where it has none. -/
def volumeOf (pos : Json.Value) : ℚ := ((pos.get? "pa").map jsonToFloat).getD 0

section Taken
variable (s : BinanceExchange) (us : List (DateTime × AccountUpdate))

/-- The balances that are taken from the packets. -/
def balances : List Json.Value := us.flatMap fun u => takenBalances (u.2.entries "B")

/-- The positions that are taken from the packets: those of a packet whose balances can all be
read. -/
def positions : List Json.Value :=
  us.flatMap fun u =>
    if (u.2.entries "B").all readableBalance then takenPositions s (u.2.entries "P") else []

/-- The last entry that is taken of an asset reports what was last reported, and so does the last
position that is taken of an instrument. Only one-way mode is reported. -/
structure Taken : Prop where
  balance : ∀ asset amount, lastAmount (names "a" asset) "wb" (reported us "B") = some amount →
    ∃ acc, latest (text · "a" = asset) (balances us) = some acc ∧ number acc "wb" = amount
  available : ∀ asset amount, lastAmount (names "a" asset) "cw" (reported us "B") = some amount →
    ∃ acc, latest (text · "a" = asset) (balances us) = some acc ∧ number acc "cw" = amount
  position : ∀ name contract side amount, s.getContractByName name = some contract →
    lastAmount (fun pos => names "s" name pos && names "ps" (positionSide side) pos) "pa"
      (reported us "P") = some amount →
    side = .net ∧ ∃ pos,
      latest (fun pos => (contractOf s pos).any (·.symbol = contract.symbol)) (positions s us) =
        some pos ∧ volumeOf pos = amount

end Taken

/-! ## The effects of a packet -/

def accountOf (acc : Json.Value) : AccountData :=
  { accountid := text acc "a", balance := number acc "wb"
    frozen := number acc "wb" - number acc "cw", exchangeName }

def positionOf (s : BinanceExchange) (pos : Json.Value) : PositionData :=
  { symbol := ((contractOf s pos).map (·.symbol)).getD "", exchange := .binance, direction := .net
    volume := volumeOf pos, price := number pos "ep", pnl := number pos "up", exchangeName }

/-- The exchange after some more effects. -/
def emits (s : BinanceExchange) (es : List Effect) : BinanceExchange :=
  { s with trace := s.trace ++ es }

variable {s : BinanceExchange}

@[simp] theorem emits_nil : emits s [] = s := by simp [emits]

@[simp] theorem emits_emits (es fs : List Effect) : emits (emits s es) fs = emits s (es ++ fs) := by
  simp [emits]

theorem emit_eq (e : Effect) : s.emit e = emits s [e] := rfl

/-- The handler has these effects and returns or, if `ok` does not hold, throws. -/
def Ends (h : BinanceExchange.Handle Unit) (s : BinanceExchange) (es : List Effect) (ok : Bool) :
    Prop :=
  ∃ r, h.exec s = (r, emits s es) ∧ r.isOk = ok

theorem ends_pure : Ends (pure ⟨⟩) s [] true := ⟨.ok ⟨⟩, by simp, rfl⟩

theorem ends_effect {f : Unit → BinanceExchange.Handle Unit} {e : Effect} {es : List Effect}
    {ok : Bool} (rest : Ends (f ⟨⟩) (emits s [e]) es ok) :
    Ends (effect e >>= f) s (e :: es) ok := by
  obtain ⟨r, done, same⟩ := rest
  refine ⟨r, ?_, same⟩
  rw [effect, exec_modify_bind, emit_eq, done, emits_emits]
  rfl

theorem ends_read_error {α : Type} {r : Except Json.Error α}
    {f : α → BinanceExchange.Handle Unit} {e : Json.Error} (error : r = .error e) :
    Ends (read r >>= f) s [] false :=
  ⟨.error (.json e), by rw [exec_read_bind_error error, emits_nil], rfl⟩

theorem ends_read_ok {α : Type} {r : Except Json.Error α} {f : α → BinanceExchange.Handle Unit}
    {a : α} {es : List Effect} {ok : Bool} (value : r = .ok a) (rest : Ends (f a) s es ok) :
    Ends (read r >>= f) s es ok := by
  rwa [Ends, exec_read_bind_ok value]

theorem ok_of_isOk {α : Type} {r : Except Json.Error α} (ok : r.isOk = true) :
    ∃ a, r = .ok a := by
  cases r with
  | ok a => exact ⟨a, rfl⟩
  | error e => simp [Except.isOk, Except.toBool] at ok

theorem error_of_not_isOk {α : Type} {r : Except Json.Error α} (failed : r.isOk = false) :
    ∃ e, r = .error e := by
  cases r with
  | ok a => simp [Except.isOk, Except.toBool] at failed
  | error e => exact ⟨e, rfl⟩

theorem text_read {entry : Json.Value} {key : AString} (readable : hasText entry key = true) :
    entry.stringOr key "" = .ok (text entry key) := by
  obtain ⟨s, value⟩ := ok_of_isOk readable
  rw [text, value]

theorem number_read {entry : Json.Value} {key : AString} (readable : hasNumber entry key = true) :
    entry.valueOr Json.Value.number? key 0 = .ok (number entry key) := by
  obtain ⟨q, value⟩ := ok_of_isOk readable
  rw [number, value]

/-- A balance that cannot be read ends the loop. -/
theorem onBalances_unreadable {acc : Json.Value} (accs : List Json.Value)
    (unreadable : readableBalance acc = false) : Ends (onBalances (acc :: accs)) s [] false := by
  rw [onBalances]
  cases texts : hasText acc "a" with
  | false => exact ends_read_error (error_of_not_isOk texts).choose_spec
  | true =>
    refine ends_read_ok (text_read texts) ?_
    cases wallets : hasNumber acc "wb" with
    | false => exact ends_read_error (error_of_not_isOk wallets).choose_spec
    | true =>
      refine ends_read_ok (number_read wallets) ?_
      have crosses : hasNumber acc "cw" = false := by
        simpa [readableBalance, texts, wallets] using unreadable
      exact ends_read_error (error_of_not_isOk crosses).choose_spec

/-- The balances that are taken are passed on, and the loop ends early if one cannot be read. -/
theorem ends_onBalances (accs : List Json.Value) (s : BinanceExchange) :
    Ends (onBalances accs) s ((takenBalances accs).map fun acc => .account (accountOf acc))
      (accs.all readableBalance) := by
  induction accs generalizing s with
  | nil => exact ends_pure
  | cons acc accs ih =>
    cases readable : readableBalance acc with
    | false =>
      have ends := onBalances_unreadable (s := s) accs readable
      simpa [takenBalances, readable] using ends
    | true =>
      have parts := readable
      simp only [readableBalance, Bool.and_eq_true] at parts
      obtain ⟨⟨texts, wallets⟩, crosses⟩ := parts
      rw [onBalances]
      refine ends_read_ok (text_read texts) ?_
      refine ends_read_ok (number_read wallets) ?_
      refine ends_read_ok (number_read crosses) ?_
      split
      · rename_i nonzero
        have taken : takenBalances (acc :: accs) = acc :: takenBalances accs := by
          simp [takenBalances, readable, nonzero]
        rw [taken, List.all_cons, readable, Bool.true_and]
        exact ends_effect (f := fun _ => onBalances accs) (ih (emits s [.account (accountOf acc)]))
      · rename_i zero
        simpa [takenBalances, readable, not_not.mp zero] using ih s

theorem ends_get {f : BinanceExchange → BinanceExchange.Handle Unit} {es : List Effect}
    {ok : Bool} (rest : Ends (f s) s es ok) : Ends (get >>= f) s es ok := by
  rwa [Ends, exec_get_bind]

/-- A position that cannot be read ends the loop. -/
theorem onPositions_unreadable {pos : Json.Value} (poss : List Json.Value)
    (unreadable : readablePosition s pos = false) :
    Ends (onPositions (pos :: poss)) s [] false := by
  rw [onPositions]
  cases side : hasText pos "ps" with
  | false => exact ends_read_error (error_of_not_isOk side).choose_spec
  | true =>
    refine ends_read_ok (text_read side) ?_
    have both : text pos "ps" = "BOTH" := by
      by_contra other
      simp [readablePosition, side, other] at unreadable
    simp only [both, ne_eq, not_true_eq_false, if_false]
    cases texts : hasText pos "s" with
    | false => exact ends_read_error (error_of_not_isOk texts).choose_spec
    | true =>
      refine ends_read_ok (text_read texts) (ends_get ?_)
      cases known : s.getContractByName (text pos "s") with
      | none => simp [readablePosition, side, both, texts, contractOf, known] at unreadable
      | some contract =>
        cases prices : hasNumber pos "ep" with
        | false => exact ends_read_error (error_of_not_isOk prices).choose_spec
        | true =>
          refine ends_read_ok (number_read prices) ?_
          have pnls : hasNumber pos "up" = false := by
            simpa [readablePosition, side, both, texts, contractOf, known, prices] using unreadable
          exact ends_read_error (error_of_not_isOk pnls).choose_spec

/-- A position that can be read is passed on, if it is taken. -/
theorem onPositions_readable {pos : Json.Value} {poss : List Json.Value} {es : List Effect}
    {ok : Bool} (readable : readablePosition s pos = true)
    (rest : ∀ fs, Ends (onPositions poss) (emits s fs) es ok) :
    Ends (onPositions (pos :: poss)) s
      ((if text pos "ps" = "BOTH" ∧ (contractOf s pos).isSome then
        [.position (positionOf s pos)] else []) ++ es) ok := by
  simp only [readablePosition, Bool.and_eq_true, Bool.or_eq_true, decide_eq_true_eq] at readable
  obtain ⟨side, either⟩ := readable
  have same := rest []
  rw [emits_nil] at same
  rw [onPositions]
  refine ends_read_ok (text_read side) ?_
  by_cases both : text pos "ps" = "BOTH"
  case neg => simpa [both] using same
  obtain ⟨texts, known⟩ := either.resolve_left (not_not_intro both)
  simp only [both, ne_eq, not_true_eq_false, if_false, true_and]
  refine ends_read_ok (text_read texts) (ends_get ?_)
  cases found : contractOf s pos with
  | none =>
    have missing : s.getContractByName (text pos "s") = none := found
    simpa [missing] using same
  | some contract =>
    have present : s.getContractByName (text pos "s") = some contract := found
    obtain ⟨prices, pnls⟩ : hasNumber pos "ep" = true ∧ hasNumber pos "up" = true := by
      simpa [found] using known
    rw [present]
    refine ends_read_ok (number_read prices) ?_
    refine ends_read_ok (number_read pnls) ?_
    simp only [Option.isSome_some, if_true, List.singleton_append, positionOf, found,
      Option.map_some, Option.getD_some]
    exact ends_effect (f := fun _ => onPositions poss) (rest _)

/-- The positions that are taken are passed on, and the loop ends early if one cannot be read. -/
theorem ends_onPositions (poss : List Json.Value) (s : BinanceExchange) :
    Ends (onPositions poss) s ((takenPositions s poss).map fun pos => .position (positionOf s pos))
      (poss.all (readablePosition s)) := by
  induction poss generalizing s with
  | nil => exact ends_pure
  | cons pos poss ih =>
    cases readable : readablePosition s pos with
    | false =>
      have nothing : takenPositions s (pos :: poss) = [] := by simp [takenPositions, readable]
      rw [nothing, List.all_cons, readable, Bool.false_and]
      exact onPositions_unreadable poss readable
    | true =>
      have later : ∀ fs, Ends (onPositions poss) (emits s fs)
          ((takenPositions s poss).map fun pos => .position (positionOf s pos))
          (poss.all (readablePosition s)) := fun fs => ih (emits s fs)
      have ends := onPositions_readable readable later
      rw [List.all_cons, readable, Bool.true_and]
      by_cases taken : text pos "ps" = "BOTH" ∧ (contractOf s pos).isSome
      · have first : takenPositions s (pos :: poss) = pos :: takenPositions s poss := by
          simp [takenPositions, readable, taken]
        rw [if_pos taken] at ends
        rw [first]
        exact ends
      · have rest : takenPositions s (pos :: poss) = takenPositions s poss := by
          have left : (decide (text pos "ps" = "BOTH") && (contractOf s pos).isSome) = false := by
            simpa using taken
          rw [takenPositions, List.takeWhile_cons_of_pos readable,
            List.filter_cons_of_neg (by simp [left])]
          rfl
        rw [if_neg taken] at ends
        rw [rest]
        exact ends

theorem ends_bind {x : BinanceExchange.Handle Unit} {f : Unit → BinanceExchange.Handle Unit}
    {es fs : List Effect} {ok : Bool} (first : Ends x s es true)
    (rest : Ends (f ⟨⟩) (emits s es) fs ok) : Ends (x >>= f) s (es ++ fs) ok := by
  obtain ⟨r, done, returns⟩ := first
  obtain ⟨r', done', same⟩ := rest
  cases r with
  | error fault => simp [Except.isOk, Except.toBool] at returns
  | ok _ => exact ⟨r', by rw [exec_bind_ok done, done', emits_emits], same⟩

theorem ends_bind_error {x : BinanceExchange.Handle Unit} {f : Unit → BinanceExchange.Handle Unit}
    {es : List Effect} (first : Ends x s es false) : Ends (x >>= f) s es false := by
  obtain ⟨r, done, throws⟩ := first
  cases r with
  | error fault => exact ⟨.error fault, exec_bind_error done, rfl⟩
  | ok _ => simp [Except.isOk, Except.toBool] at throws

/-- The events of a packet. -/
def events (s : BinanceExchange) (u : AccountUpdate) : List OmsEvent :=
  (takenBalances (u.entries "B")).map (fun acc => .account (accountOf acc)) ++
    if (u.entries "B").all readableBalance then
      (takenPositions s (u.entries "P")).map fun pos => .position (positionOf s pos)
    else []

theorem accountEvents (accs : List Json.Value) :
    (accs.map fun acc => Effect.account (accountOf acc)).filterMap Effect.event? =
      accs.map fun acc => .account (accountOf acc) := by
  induction accs with
  | nil => rfl
  | cons acc accs ih => simp [Effect.event?, ih]

theorem positionEvents (poss : List Json.Value) :
    (poss.map fun pos => Effect.position (positionOf s pos)).filterMap Effect.event? =
      poss.map fun pos => .position (positionOf s pos) := by
  induction poss with
  | nil => rfl
  | cons pos poss ih => simp [Effect.event?, ih]

theorem ends_event (now : DateTime) (u : AccountUpdate) {es : List Effect} {ok : Bool}
    (ends : Ends (onAccount u.packet) s es ok) : Ends (onPacket now u.packet) s es ok := by
  unfold onPacket
  rw [u.event]
  refine ends_read_ok (a := "ACCOUNT_UPDATE") rfl ?_
  rwa [if_pos rfl]

theorem ends_onPacket (s : BinanceExchange) (now : DateTime) (u : AccountUpdate) :
    ∃ es ok, Ends (onPacket now u.packet) s es ok ∧ es.filterMap Effect.event? = events s u := by
  have branch {es : List Effect} {ok : Bool} (ends : Ends (onAccount u.packet) s es ok) :=
    ends_event now u ends
  unfold events AccountUpdate.entries
  unfold onAccount at branch
  cases member : u.packet.get? "a" with
  | none =>
    rw [member] at branch
    exact ⟨[], true, branch ends_pure, rfl⟩
  | some a =>
    rw [member] at branch
    dsimp only at branch ⊢
    have balances := ends_onBalances (arrayAt a "B") s
    cases readable : (arrayAt a "B").all readableBalance with
    | false =>
      rw [readable] at balances
      exact ⟨_, false, branch (ends_bind_error balances), by
        rw [accountEvents, if_neg Bool.false_ne_true, List.append_nil]⟩
    | true =>
      rw [readable] at balances
      have positions := ends_onPositions (arrayAt a "P") (emits s
        ((takenBalances (arrayAt a "B")).map fun acc => .account (accountOf acc)))
      refine ⟨_, _, branch (ends_bind balances positions), ?_⟩
      rw [List.filterMap_append, accountEvents, positionEvents]
      rfl

theorem not_null (u : AccountUpdate) : u.packet.isNull = false :=
  Json.Value.isNull_of_get? u.event

/-- A packet puts its events, and a report of what it throws is none. -/
theorem receive_eq (s : BinanceExchange) (u : DateTime × AccountUpdate) :
    ∃ es, receive s u = emits s es ∧ es.filterMap Effect.event? = events s u.2 := by
  obtain ⟨es, ok, ⟨r, handled, -⟩, put⟩ := ends_onPacket s u.1 u.2
  unfold receive onText
  cases r with
  | ok _ => exact ⟨es, onText_ok u.2.not_null handled, put⟩
  | error fault =>
    refine ⟨es ++ [.error fault], ?_, ?_⟩
    · rw [onText_error u.2.not_null handled, emit_eq, emits_emits]
    · rw [List.filterMap_append, put]
      simp [Effect.event?]

/-- The events of a packet do not depend on what has been put before. -/
theorem events_emits (es : List Effect) : events (emits s es) = events s := rfl

theorem foldl_receive (s : BinanceExchange) (us : List (DateTime × AccountUpdate)) :
    ∃ es, us.foldl receive s = emits s es ∧
      es.filterMap Effect.event? = us.flatMap fun u => events s u.2 := by
  induction us generalizing s with
  | nil => exact ⟨[], by simp, rfl⟩
  | cons u us ih =>
    obtain ⟨es, received, put⟩ := receive_eq s u
    obtain ⟨fs, rest, putRest⟩ := ih (emits s es)
    refine ⟨es ++ fs, ?_, ?_⟩
    · rw [List.foldl_cons, received, rest, emits_emits]
    · rw [List.filterMap_append, put, putRest, events_emits]
      rfl

/-! ## What is stored -/

theorem ktAccountid_iff {acc : Json.Value} {asset : AString} :
    (accountOf acc).ktAccountid = exchangeName ++ "." ++ asset ↔ text acc "a" = asset := by
  simp [AccountData.ktAccountid, accountOf]

/-- The keys of two sides differ, as their last two letters do. -/
theorem positionKey_inj {symbol other : AString} {side : Direction}
    (key : ktSymbolOf symbol .binance ++ "." ++ strDirection .net =
      ktSymbolOf other .binance ++ "." ++ strDirection side) : symbol = other ∧ side = .net := by
  have letters := congrArg (fun k => k.toList.reverse.take 2) key
  cases side with
  | long => simp [strDirection] at letters
  | short => simp [strDirection] at letters
  | net => simpa [ktSymbolOf] using key

theorem ktPositionid_iff {pos : Json.Value} {symbol : AString} {side : Direction}
    (known : (contractOf s pos).isSome) :
    (positionOf s pos).ktPositionid = ktSymbolOf symbol .binance ++ "." ++ strDirection side ↔
      (contractOf s pos).any (·.symbol = symbol) ∧ side = .net := by
  obtain ⟨contract, found⟩ := Option.isSome_iff_exists.mp known
  have symbol_eq : (positionOf s pos).symbol = contract.symbol := by simp [positionOf, found]
  rw [PositionData.ktPositionid, PositionData.ktSymbol, symbol_eq]
  constructor
  · intro key
    obtain ⟨same, net⟩ := positionKey_inj key
    exact ⟨by simp [found, same], net⟩
  · rintro ⟨same, rfl⟩
    rw [← show contract.symbol = symbol by simpa [found] using same]
    rfl

variable {us : List (DateTime × AccountUpdate)} {enum : Enumeration AString OrderData}

theorem omsAfter_eq : omsAfter enum s us =
    (us.flatMap fun u => events s u.2).foldl (OmsEngine.process enum) {} := by
  obtain ⟨es, received, put⟩ := foldl_receive s us
  rw [omsAfter, newEvents, received, ← put]
  simp [emits]

theorem events_accounts (u : AccountUpdate) : (events s u).filterMap OmsEngine.account? =
    (takenBalances (u.entries "B")).map accountOf := by
  unfold events
  split <;> simp [List.filterMap_map, Function.comp_def, OmsEngine.account?]

theorem events_positions (u : AccountUpdate) : (events s u).filterMap OmsEngine.position? =
    (if (u.entries "B").all readableBalance then takenPositions s (u.entries "P") else []).map
      (positionOf s) := by
  unfold events
  split <;> simp [List.filterMap_map, Function.comp_def, OmsEngine.position?]

/-- An asset is stored as the last balance that is taken of it tells. -/
theorem getAccount_omsAfter (asset : AString) :
    (omsAfter enum s us).getAccount (exchangeName ++ "." ++ asset) =
      (latest (text · "a" = asset) (balances us)).map accountOf := by
  have parts : (us.flatMap fun u => events s u.2).filterMap OmsEngine.account? =
      (balances us).map accountOf := by
    simp only [List.filterMap_flatMap, events_accounts, balances, List.map_flatMap]
  have keys : (fun acc => decide ((accountOf acc).ktAccountid = exchangeName ++ "." ++ asset)) =
      fun acc => decide (text acc "a" = asset) := by
    simp only [ktAccountid_iff]
  rw [omsAfter_eq, OmsEngine.getAccount_foldl, parts, latest_map, keys]
  exact Option.or_none

theorem known_of_taken {pos : Json.Value} (mem : pos ∈ positions s us) :
    (contractOf s pos).isSome := by
  obtain ⟨u, -, taken⟩ := List.mem_flatMap.mp mem
  split at taken
  · have both := (List.mem_filter.mp taken).2
    simp only [Bool.and_eq_true] at both
    exact both.2
  · exact absurd taken List.not_mem_nil

/-- An instrument is stored as the last position that is taken of it tells, and under no other
side. -/
theorem getPosition_omsAfter (symbol : AString) (side : Direction) :
    (omsAfter enum s us).getPosition (ktSymbolOf symbol .binance ++ "." ++ strDirection side) =
      if side = .net then
        (latest (fun pos => (contractOf s pos).any (·.symbol = symbol)) (positions s us)).map
          (positionOf s)
      else none := by
  have parts : (us.flatMap fun u => events s u.2).filterMap OmsEngine.position? =
      (positions s us).map (positionOf s) := by
    simp only [List.filterMap_flatMap, events_positions, positions, List.map_flatMap]
  have keys : latest (fun pos => decide ((positionOf s pos).ktPositionid =
        ktSymbolOf symbol .binance ++ "." ++ strDirection side)) (positions s us) =
      latest (fun pos => (contractOf s pos).any (·.symbol = symbol) && decide (side = .net))
        (positions s us) :=
    latest_congr fun pos mem => by simp [ktPositionid_iff (known_of_taken mem)]
  rw [omsAfter_eq, OmsEngine.getPosition_foldl, parts, latest_map, keys]
  split
  · rename_i net
    simp only [net, decide_true, Bool.and_true]
    exact Option.or_none
  · rename_i hedge
    rw [latest_eq_none.mpr fun pos _ => by simp [hedge]]
    rfl

theorem exists_map_iff {α β : Type} {o : Option α} {f : α → β} {p : β → Prop} :
    (∃ b, o.map f = some b ∧ p b) ↔ ∃ a, o = some a ∧ p (f a) := by
  simp

variable (enum s us) in
/-- What was last reported is stored exactly if the last entry that was taken reports it. -/
theorem shown_iff_taken : Shown enum s us ↔ Taken s us := by
  constructor
  · intro shown
    refine ⟨fun asset amount last => ?_, fun asset amount last => ?_,
      fun name contract side amount known last => ?_⟩
    · have stored := shown.balance asset amount last
      rwa [getAccount_omsAfter, exists_map_iff] at stored
    · have stored := shown.available asset amount last
      rw [getAccount_omsAfter, exists_map_iff] at stored
      simpa [AccountData.available, accountOf] using stored
    · have stored := shown.position name contract side amount known last
      rw [getPosition_omsAfter] at stored
      split at stored
      · rename_i net
        rw [exists_map_iff] at stored
        exact ⟨net, stored⟩
      · simp at stored
  · intro taken
    refine ⟨fun asset amount last => ?_, fun asset amount last => ?_,
      fun name contract side amount known last => ?_⟩
    · rw [getAccount_omsAfter, exists_map_iff]
      exact taken.balance asset amount last
    · rw [getAccount_omsAfter, exists_map_iff]
      simpa [AccountData.available, accountOf] using taken.available asset amount last
    · obtain ⟨net, stored⟩ := taken.position name contract side amount known last
      rw [getPosition_omsAfter, if_pos net, exists_map_iff]
      exact stored

/-- A balance that is given as text is not stored. -/
theorem textBalance_lost :
    ¬ ∀ (enum : Enumeration AString OrderData) (s : BinanceExchange)
      (us : List (DateTime × AccountUpdate)), Shown enum s us := by
  intro all
  let balance : Json.Value :=
    .object [("a", .string "USDT"), ("wb", .string "12.5"), ("cw", .string "10")]
  let update : AccountUpdate :=
    { packet := .object
        [("e", .string "ACCOUNT_UPDATE"), ("a", .object [("B", .array [balance])])]
      event := rfl }
  have reports : lastAmount (names "a" "USDT") "wb" (reported [(0, update)] "B") =
      some (25 / 2) := by
    decide +kernel
  obtain ⟨account, stored, -⟩ :=
    (all .sorted {} [(0, update)]).balance "USDT" (25 / 2) reports
  have unread : latest (text · "a" = "USDT") (balances [(0, update)]) = none := by decide +kernel
  rw [getAccount_omsAfter, unread] at stored
  exact absurd stored (by simp)

end AccountUpdate

end KeenTrader.Exchange.BinanceUserApi
