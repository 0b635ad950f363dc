import KeenTrader.Engine.Oms

/-!
# Quotes

A quote is created with an empty key, and `__post_init__` puts the exchange name in front of
that key, not of the quote's own id. All quotes of one exchange therefore share one key, and the
stores keep the latest event of the exchange, whichever quote it is about.
-/

namespace KeenTrader.Engine

open Std (ExtTreeMap)
open Containers Runs

namespace QuoteData

/-- A status update of a quote: its status and its time change. -/
def Updates (e q : QuoteData) : Prop := e = { q with status := e.status, datetime := e.datetime }

/-- The same quote of the same exchange. -/
def same (q e : QuoteData) : Bool := e.exchangeName = q.exchangeName ∧ e.quoteid = q.quoteid

theorem Updates.identity {e q : QuoteData} (updates : e.Updates q) :
    e.exchangeName = q.exchangeName ∧ e.quoteid = q.quoteid ∧ e.ktQuoteid = q.ktQuoteid := by
  rw [updates]
  exact ⟨rfl, rfl, rfl⟩

end QuoteData

/-- Quotes that were created under different ids, and status updates of them in the order in
which they are delivered. -/
structure QuoteHistory where
  quotes : List QuoteData
  events : List QuoteData
  created : ∀ q ∈ quotes, ∃ (r : QuoteRequest) (quoteid exchangeName : AString),
    q = r.createQuoteData quoteid exchangeName
  distinct : quotes.Pairwise fun a b =>
    (a.exchangeName, a.quoteid) ≠ (b.exchangeName, b.quoteid)
  undotted : ∀ q ∈ quotes, '.' ∉ q.exchangeName.toList
  updates : ∀ e ∈ events, ∃ q ∈ quotes, e.Updates q

namespace QuoteHistory

variable (h : QuoteHistory)

/-- The engine after the events. -/
def oms : OmsEngine := h.events.foldl OmsEngine.processQuoteEvent {}

/-- The last event of a quote. -/
def lastEvent (q : QuoteData) : Option QuoteData := latest q.same h.events

/-- Each quote is found with its last event, and the active quotes are the active ones of these,
each under its own key. -/
structure Kept : Prop where
  found : ∀ q ∈ h.quotes, h.oms.getQuote q.ktQuoteid = h.lastEvent q
  active : ∀ (k : AString) e, h.oms.activeQuotes[k]? = some e ↔
    e.ktQuoteid = k ∧ e.isActive = true ∧ ∃ q ∈ h.quotes, h.lastEvent q = some e

/-! ## The stores -/

theorem foldl_processQuoteEvent (events : List QuoteData) (s : OmsEngine) :
    (events.foldl OmsEngine.processQuoteEvent s).quotes =
        events.foldl (put QuoteData.ktQuoteid fun _ => true) s.quotes ∧
      (events.foldl OmsEngine.processQuoteEvent s).activeQuotes =
        events.foldl (put QuoteData.ktQuoteid QuoteData.isActive) s.activeQuotes := by
  induction events generalizing s with
  | nil => exact ⟨rfl, rfl⟩
  | cons e events ih => exact ih (s.processQuoteEvent e)

/-- The key of a created quote is its exchange name and a dot. -/
theorem ktQuoteid_of_mem {q : QuoteData} (mem : q ∈ h.quotes) :
    q.ktQuoteid = q.exchangeName ++ "." := by
  obtain ⟨r, quoteid, exchangeName, rfl⟩ := h.created q mem
  simp [QuoteRequest.createQuoteData, QuoteData.postInit]

theorem ktQuoteid_event {e : QuoteData} (mem : e ∈ h.events) :
    e.ktQuoteid = e.exchangeName ++ "." := by
  obtain ⟨q, created, updates⟩ := h.updates e mem
  obtain ⟨exchangeName, -, key⟩ := updates.identity
  rw [key, exchangeName, h.ktQuoteid_of_mem created]

/-- Two quotes have one key exactly if they are of one exchange. -/
theorem same_key {e q : QuoteData} (event : e ∈ h.events) (mem : q ∈ h.quotes) :
    e.ktQuoteid = q.ktQuoteid ↔ e.exchangeName = q.exchangeName := by
  rw [h.ktQuoteid_event event, h.ktQuoteid_of_mem mem]
  constructor
  · intro key
    have chars : e.exchangeName.toList = q.exchangeName.toList := by
      simpa using congrArg String.toList key
    exact String.toList_inj.mp chars
  · exact fun name => by rw [name]

/-- What is found under a key is the latest event with the key. -/
theorem getQuote_oms (k : AString) :
    h.oms.getQuote k = latest (fun e => e.ktQuoteid = k) h.events := by
  rw [OmsEngine.getQuote, oms, (foldl_processQuoteEvent _ _).1, getElem?_foldl_put]
  cases latest (fun e : QuoteData => e.ktQuoteid = k) h.events <;> simp

theorem activeQuotes_oms (k : AString) :
    h.oms.activeQuotes[k]? = (h.oms.getQuote k).filter QuoteData.isActive := by
  rw [getQuote_oms, oms, (foldl_processQuoteEvent _ _).2, getElem?_foldl_put]
  cases latest (fun e : QuoteData => e.ktQuoteid = k) h.events <;>
    simp [Option.filter]

/-- What is found for a quote is the latest event of its exchange. -/
theorem getQuote_of_mem {q : QuoteData} (mem : q ∈ h.quotes) :
    h.oms.getQuote q.ktQuoteid =
      latest (fun e => e.exchangeName = q.exchangeName) h.events := by
  rw [getQuote_oms]
  exact latest_congr fun e event => by simp [h.same_key event mem]

/-- The last event of a quote is one of its own. -/
theorem lastEvent_same {q e : QuoteData} (last : h.lastEvent q = some e) :
    e ∈ h.events ∧ e.exchangeName = q.exchangeName ∧ e.quoteid = q.quoteid := by
  obtain ⟨event, own⟩ := mem_of_latest last
  exact ⟨event, by simpa [QuoteData.same] using own⟩

/-! ## When quotes are kept -/

/-- An exchange that sends an event of one quote has no other quote. -/
def Alone : Prop :=
  ∀ e ∈ h.events, ∀ q ∈ h.quotes, e.exchangeName = q.exchangeName → e.quoteid = q.quoteid

theorem found_of_alone (alone : h.Alone) {q : QuoteData} (mem : q ∈ h.quotes) :
    h.oms.getQuote q.ktQuoteid = h.lastEvent q := by
  rw [h.getQuote_of_mem mem]
  refine latest_congr fun e event => ?_
  by_cases exchange : e.exchangeName = q.exchangeName
  · simp [QuoteData.same, exchange, alone e event q mem exchange]
  · simp [QuoteData.same, exchange]

theorem active_of_alone (alone : h.Alone) (k : AString) (e : QuoteData) :
    h.oms.activeQuotes[k]? = some e ↔
      e.ktQuoteid = k ∧ e.isActive = true ∧ ∃ q ∈ h.quotes, h.lastEvent q = some e := by
  rw [activeQuotes_oms, Option.filter_eq_some_iff]
  constructor
  · rintro ⟨stored, active⟩
    rw [getQuote_oms] at stored
    obtain ⟨event, key⟩ := mem_of_latest stored
    obtain ⟨q, mem, updates⟩ := h.updates e event
    have own : q.ktQuoteid = k := by simpa [← updates.identity.2.2] using key
    refine ⟨by simpa using key, active, q, mem, ?_⟩
    rw [← h.found_of_alone alone mem, own, getQuote_oms, stored]
  · rintro ⟨key, active, q, mem, last⟩
    obtain ⟨event, exchangeName, -⟩ := h.lastEvent_same last
    have shared := (h.same_key event mem).mpr exchangeName
    exact ⟨by rw [← key, shared, h.found_of_alone alone mem, last], active⟩

/-- Quotes are kept apart in exactly those histories in which an exchange that sends any event
has a single quote. -/
theorem kept_iff_alone : h.Kept ↔ h.Alone := by
  constructor
  · intro kept e event q mem exchange
    obtain ⟨own, created, updates⟩ := h.updates e event
    obtain ⟨exchangeName, quoteid, key⟩ := updates.identity
    have shared : own.ktQuoteid = q.ktQuoteid := by
      rw [← key]
      exact (h.same_key event mem).mpr exchange
    obtain ⟨last, found⟩ := exists_latest (p := own.same) event
      (by simp [QuoteData.same, exchangeName, quoteid])
    have other : h.lastEvent q = some last := by
      rw [← kept.found q mem, ← shared, kept.found own created]
      exact found
    have ofOwn := (h.lastEvent_same found).2.2
    have ofOther := (h.lastEvent_same other).2.2
    rw [quoteid, ← ofOwn, ofOther]
  · intro alone
    exact ⟨fun q mem => h.found_of_alone alone mem, h.active_of_alone alone⟩

/-- The cancellation of one quote takes the other quote of the exchange out of the active
ones. -/
theorem quote_evicted : ¬ ∀ h : QuoteHistory, h.Kept := by
  intro all
  let request : QuoteRequest :=
    { symbol := "BTC-USDT", exchange := .okx, bidPrice := 1, bidVolume := 1
      askPrice := 2, askVolume := 1 }
  let first := request.createQuoteData "1" "OKX"
  let second := request.createQuoteData "2" "OKX"
  let h : QuoteHistory :=
    { quotes := [first, second]
      events := [{ first with status := .notTraded }, { second with status := .cancelled }]
      created := by
        intro q mem
        rcases List.mem_pair.mp mem with rfl | rfl
        · exact ⟨request, "1", "OKX", rfl⟩
        · exact ⟨request, "2", "OKX", rfl⟩
      distinct := by simp [first, second, QuoteRequest.createQuoteData, QuoteData.postInit]
      undotted := by simp [first, second, QuoteRequest.createQuoteData, QuoteData.postInit]
      updates := by
        intro e mem
        rcases List.mem_pair.mp mem with rfl | rfl
        · exact ⟨first, by simp, rfl⟩
        · exact ⟨second, by simp, rfl⟩ }
  have alone := (all h).found first (by simp [h])
  exact absurd alone (by decide)

end QuoteHistory

end KeenTrader.Engine
