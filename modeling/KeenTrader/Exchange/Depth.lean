import KeenTrader.Library.Slots
import KeenTrader.Exchange.Ticks

/-!
# The depth of the book

A depth message lists as many levels as the book has. OKX's handler reads five on each side
without a look at the length; Binance's stores the levels that are there and leaves the slots
behind them as they were. So the tick that is pushed shows the book of the message where the book
is deep enough, or where the tick holds nothing behind its end.
-/

namespace KeenTrader.Engine.TickData

/-- The levels of a list that go into the given slots. -/
def putLevels (side : BookSide) (levels : List (ℚ × ℚ)) (ks : List (Fin 5)) (t : TickData) :
    TickData :=
  ks.foldl (fun t (k : Fin 5) =>
    match levels[(k : ℕ)]? with
    | some level => t.setLevel side k level
    | none => t) t

variable {t : TickData} {side : BookSide} {levels : List (ℚ × ℚ)} {k : Fin 5} {ks : List (Fin 5)}

theorem putLevels_cons_of_lt (there : (k : ℕ) < levels.length) :
    t.putLevels side levels (k :: ks) =
      (t.setLevel side k levels[(k : ℕ)]).putLevels side levels ks := by
  simp [putLevels, there]

theorem putLevels_cons_of_le (short : levels.length ≤ k) :
    t.putLevels side levels (k :: ks) = t.putLevels side levels ks := by
  simp [putLevels, List.getElem?_eq_none short]

theorem levels_putLevels (side' : BookSide) (j : Fin 5) :
    (t.putLevels side levels ks).levels side' j =
      if side' = side ∧ j ∈ ks then levels[(j : ℕ)]?.getD (t.levels side' j)
      else t.levels side' j := by
  induction ks generalizing t with
  | nil => simp [putLevels]
  | cons k ks ih =>
    rcases lt_or_ge (k : ℕ) levels.length with there | short
    · rw [putLevels_cons_of_lt there, ih, levels_setLevel]
      grind
    · rw [putLevels_cons_of_le short, ih]
      grind

/-- All five slots of a side are overwritten, and the other side is not. -/
theorem levels_putLevels_all (side' : BookSide) :
    (t.putLevels side levels slots).levels side' =
      if side' = side then Slots.overwrite (t.levels side) levels else t.levels side' := by
  funext j
  rw [levels_putLevels]
  by_cases same : side' = side
  · subst same
    simp [mem_slots, Slots.overwrite]
  · simp [same]

/-- The tick after a book has been stored in it. -/
def withBook (book : BookSide → List (ℚ × ℚ)) (t : TickData) : TickData :=
  (t.putLevels .bid (book .bid) slots).putLevels .ask (book .ask) slots

theorem levels_withBook (book : BookSide → List (ℚ × ℚ)) (side : BookSide) :
    (t.withBook book).levels side = Slots.overwrite (t.levels side) (book side) := by
  unfold withBook
  cases side <;> simp [levels_putLevels_all]

@[simp] theorem limitUp_putLevels : (t.putLevels side levels ks).limitUp = t.limitUp := by
  induction ks generalizing t with
  | nil => rfl
  | cons k ks ih =>
    rcases lt_or_ge (k : ℕ) levels.length with there | short
    · rw [putLevels_cons_of_lt there, ih, limitUp_setLevel]
    · rw [putLevels_cons_of_le short, ih]

@[simp] theorem limitDown_putLevels : (t.putLevels side levels ks).limitDown = t.limitDown := by
  induction ks generalizing t with
  | nil => rfl
  | cons k ks ih =>
    rcases lt_or_ge (k : ℕ) levels.length with there | short
    · rw [putLevels_cons_of_lt there, ih, limitDown_setLevel]
    · rw [putLevels_cons_of_le short, ih]

end KeenTrader.Engine.TickData

namespace KeenTrader.Exchange

open Std (ExtTreeMap)
open KeenTrader.Engine Handlers

/-! ## Levels in a message -/

/-- A level as it stands in a message: a price, a volume, and whatever else. -/
def Row (row : Json.Value) (level : ℚ × ℚ) : Prop :=
  ∃ price volume rest, row = .array (price :: volume :: rest) ∧
    (jsonToFloat price, jsonToFloat volume) = level

/-- The levels of one side as they stand in a message. -/
def Rows (v : Json.Value) (levels : List (ℚ × ℚ)) : Prop :=
  ∃ rows, v = .array rows ∧ List.Forall₂ Row rows levels

/-- What a depth message says: the levels of each side, the best one first. -/
abbrev Book := BookSide → List (ℚ × ℚ)

namespace TickFeed

variable {S : Type} {update : (TickData → TickData) → S → S} {v : Json.Value}
  {levels : List (ℚ × ℚ)} {side : BookSide} {k : Fin 5} {ks : List (Fin 5)}

theorem length_items (rows : Rows v levels) : v.items.length = levels.length := by
  obtain ⟨rows, rfl, same⟩ := rows
  exact same.length_eq

theorem exists_row (rows : Rows v levels) (there : (k : ℕ) < levels.length) :
    ∃ row, v.element k = .ok row ∧ Row row levels[(k : ℕ)] := by
  obtain ⟨rows, rfl, same⟩ := rows
  have inside : (k : ℕ) < rows.length := same.length_eq ▸ there
  exact ⟨rows[(k : ℕ)], by simp [Json.Value.element, inside], same.get inside there⟩

theorem element_of_le (rows : Rows v levels) (short : levels.length ≤ k) :
    v.element k = .error .key := by
  obtain ⟨rows, rfl, same⟩ := rows
  have outside : rows.length ≤ (k : ℕ) := same.length_eq ▸ short
  simp [Json.Value.element, List.getElem?_eq_none outside]

section Stores
variable (comp : ∀ f g s, update g (update f s) = update (fun t => g (f t)) s)
  (rows : Rows v levels)
include comp rows

/-- A level that is there is stored. -/
theorem exec_storeLevel (there : (k : ℕ) < levels.length) (f : TickData → TickData) (s : S) :
    (storeLevel update side v k).exec (update f s) =
      (.ok (), update (fun t => (f t).setLevel side k levels[(k : ℕ)]) s) := by
  obtain ⟨row, found, price, volume, rest, rfl, level⟩ := exists_row rows there
  unfold storeLevel
  rw [exec_read_bind_ok found, exec_store_bind]
  simp only [Json.Value.element, List.getElem?_cons_zero, Except.map_ok]
  rw [exec_store]
  simp only [List.getElem?_cons_succ, List.getElem?_cons_zero, Except.map_ok]
  rw [comp, comp, ← level]
  rfl

theorem exec_storeLevels (deep : ∀ k ∈ ks, (k : ℕ) < levels.length) (f : TickData → TickData)
    (s : S) :
    (storeLevels update side v ks).exec (update f s) =
      (.ok (), update (fun t => (f t).putLevels side levels ks) s) := by
  induction ks generalizing f with
  | nil => rfl
  | cons k ks ih =>
    have there := deep k (by simp)
    unfold storeLevels
    rw [exec_bind_ok (exec_storeLevel comp rows there f s),
      ih (fun k mem => deep k (List.mem_cons_of_mem _ mem))]
    simp only [TickData.putLevels_cons_of_lt there]

theorem exec_storePresent (f : TickData → TickData) (s : S) :
    (storePresent update side v ks).exec (update f s) =
      (.ok (), update (fun t => (f t).putLevels side levels ks) s) := by
  induction ks generalizing f with
  | nil => rfl
  | cons k ks ih =>
    unfold storePresent
    rw [length_items rows]
    rcases lt_or_ge (k : ℕ) levels.length with there | short
    · rw [if_pos there, exec_bind_ok (exec_storeLevel comp rows there f s), ih]
      simp only [TickData.putLevels_cons_of_lt there]
    · rw [if_neg (by omega)]
      simp only [TickData.putLevels_cons_of_le short]
      exact ih f

/-- A slot behind the end of the list is read all the same, and that has no defined result. -/
theorem exec_storeLevels_thin (thin : ∃ k ∈ ks, levels.length ≤ k) (f : TickData → TickData)
    (s : S) : ∃ t, (storeLevels update side v ks).exec (update f s) = (.error (.json .key), t) := by
  induction ks generalizing f with
  | nil => simp at thin
  | cons k ks ih =>
    unfold storeLevels
    rcases lt_or_ge (k : ℕ) levels.length with there | short
    · have later : ∃ k ∈ ks, levels.length ≤ (k : ℕ) := by
        obtain ⟨j, mem, behind⟩ := thin
        rcases List.mem_cons.mp mem with rfl | mem
        · omega
        · exact ⟨j, mem, behind⟩
      rw [exec_bind_ok (exec_storeLevel comp rows there f s)]
      exact ih later _
    · have failed : (storeLevel update side v k).exec (update f s) =
          (.error (.json .key), update f s) := by
        unfold storeLevel
        exact exec_read_bind_error (element_of_le rows short)
      exact ⟨_, exec_bind_error failed⟩

end Stores

variable {ticks : ExtTreeMap AString TickData} {symbol : AString}

theorem updateAt_updateAt (f g : TickData → TickData) :
    updateAt (updateAt ticks symbol f) symbol g = updateAt ticks symbol fun t => g (f t) := by
  unfold updateAt
  ext x tick
  grind

/-- Where there is a tick, it is not made. -/
theorem updateAt_id (there : symbol ∈ ticks) : updateAt ticks symbol id = ticks := by
  unfold updateAt
  ext x tick
  rw [ExtTreeMap.getElem?_insert]
  split
  · rename_i same
    obtain rfl := Std.compare_eq_iff_eq.mp same
    simp [ExtTreeMap.getD_eq_getD_getElem?, ExtTreeMap.getElem?_eq_some_getElem there]
  · rfl

theorem getD_updateAt_self (f : TickData → TickData) :
    (updateAt ticks symbol f).getD symbol .blank = f (ticks.getD symbol .blank) := by
  simp [updateAt]

end TickFeed

/-! ## What is pushed -/

/-- The tick shows the book and nothing else: its levels, and zeros behind them. -/
def Shows (tick : TickData) (book : Book) : Prop :=
  ∀ side, tick.levels side = Slots.pad 0 (book side)

/-- The handler reads nothing behind the end of a list, and pushes for each book a tick that
shows it. -/
def PushesBooks {Api : Type} (handler : Handler Fault (TickFeed Api) Unit) (s : TickFeed Api)
    (books : List Book) : Prop :=
  ∃ t ticks, handler.exec s = (.ok (), t) ∧ t.pushed = s.pushed ++ ticks ∧
    List.Forall₂ Shows ticks books

@[simp] theorem shows_setDatetime {tick : TickData} {datetime : DateTime} {book : Book} :
    Shows (tick.setDatetime datetime) book ↔ Shows tick book := by
  simp [Shows]

theorem shows_withBook_iff {tick : TickData} {book : Book} :
    Shows (tick.withBook book) book ↔
      ∀ side, ∀ k : Fin 5, (book side).length ≤ k → tick.levels side k = 0 := by
  unfold Shows
  simp only [TickData.levels_withBook, Slots.overwrite_eq_pad_iff]

theorem shows_of_deep {tick : TickData} {book : Book} (deep : ∀ side, 5 ≤ (book side).length) :
    Shows (tick.withBook book) book :=
  shows_withBook_iff.mpr fun side k short => by
    have := deep side
    omega

namespace OkxWebsocketPublicApi

/-- An element of a depth message of OKX: the book of an instrument. -/
structure DepthItem (d : Json.Value) (symbol : AString) (book : Book) : Prop where
  instId : d.get? "instId" = some (.string symbol)
  bids : ∃ v, d.get? "bids" = some v ∧ Rows v (book .bid)
  asks : ∃ v, d.get? "asks" = some v ∧ Rows v (book .ask)
  ts : ∃ text, d.get? "ts" = some (.string text)

variable {d : Json.Value} {ds : List Json.Value} {symbol : AString} {book : Book}
  {s : TickFeed OkxWebsocketPublicApi}

theorem update_update (f g : TickData → TickData) (s : TickFeed OkxWebsocketPublicApi) :
    update symbol g (update symbol f s) = update symbol (fun t => g (f t)) s := by
  unfold update
  simp only [TickFeed.updateAt_updateAt]

/-- A book that is deep enough is stored and pushed. -/
theorem exec_onDepth_deep (item : DepthItem d symbol book) (deep : ∀ side, 5 ≤ (book side).length)
    (ds : List Json.Value) (s : TickFeed OkxWebsocketPublicApi) :
    ∃ datetime, (onDepth (d :: ds)).exec s =
      (onDepth ds).exec
        (onTick symbol (update symbol (fun t => (t.withBook book).setDatetime datetime) s)) := by
  obtain ⟨instId, ⟨bids, bids_eq, bidRows⟩, ⟨asks, asks_eq, askRows⟩, text, ts⟩ := item
  have inside : ∀ side, ∀ k ∈ TickData.slots, (k : ℕ) < (book side).length :=
    fun side k _ => by
      have := deep side
      omega
  refine ⟨atoll text, ?_⟩
  rw [onDepth, TickFeed.textAt, exec_read_bind_ok (Json.Value.getString_of_get? instId),
    exec_modify_bind, exec_read_bind_ok (Json.Value.get_of_get? bids_eq),
    exec_read_bind_ok (Json.Value.get_of_get? asks_eq),
    exec_bind_ok (TickFeed.exec_storeLevels update_update bidRows (inside .bid) _ _),
    exec_bind_ok (TickFeed.exec_storeLevels update_update askRows (inside .ask) _ _),
    TickFeed.textAt, exec_read_bind_ok (Json.Value.getString_of_get? ts), exec_modify_bind,
    exec_modify_bind, update_update]
  rfl

/-- A book that is not is read behind its end. -/
theorem exec_onDepth_thin (item : DepthItem d symbol book)
    (thin : ∃ side, (book side).length < 5) (ds : List Json.Value)
    (s : TickFeed OkxWebsocketPublicApi) :
    ∃ t, (onDepth (d :: ds)).exec s = (.error (.json .key), t) := by
  obtain ⟨instId, ⟨bids, bids_eq, bidRows⟩, ⟨asks, asks_eq, askRows⟩, text, ts⟩ := item
  have behind : ∀ side, (book side).length < 5 →
      ∃ k ∈ TickData.slots, (book side).length ≤ (k : ℕ) :=
    fun side short => ⟨4, TickData.mem_slots 4, by omega⟩
  rw [onDepth, TickFeed.textAt, exec_read_bind_ok (Json.Value.getString_of_get? instId),
    exec_modify_bind, exec_read_bind_ok (Json.Value.get_of_get? bids_eq),
    exec_read_bind_ok (Json.Value.get_of_get? asks_eq)]
  rcases lt_or_ge (book .bid).length 5 with short | bidsDeep
  · obtain ⟨t, failed⟩ :=
      TickFeed.exec_storeLevels_thin update_update bidRows (behind .bid short) id s
    exact ⟨t, exec_bind_error failed⟩
  · have short : (book .ask).length < 5 := by
      obtain ⟨side, short⟩ := thin
      cases side
      · omega
      · exact short
    rw [exec_bind_ok (TickFeed.exec_storeLevels update_update bidRows (fun k _ => by omega) _ _)]
    obtain ⟨t, failed⟩ :=
      TickFeed.exec_storeLevels_thin update_update askRows (behind .ask short) _ s
    exact ⟨t, exec_bind_error failed⟩

theorem pushed_onTick (f : TickData → TickData) :
    (onTick symbol (update symbol f s)).pushed =
      s.pushed ++ [f (s.api.ticks.getD symbol .blank)] := by
  simp [onTick, update, TickFeed.getD_updateAt_self]

variable {books : List (AString × Book)}

/-- Where the handler returns, every book was deep enough. -/
theorem deep_of_exec_ok {t : TickFeed OkxWebsocketPublicApi}
    (items : List.Forall₂ (fun d m => DepthItem d m.1 m.2) ds books)
    (ok : (onDepth ds).exec s = (.ok (), t)) : ∀ m ∈ books, ∀ side, 5 ≤ (m.2 side).length := by
  induction items generalizing s with
  | nil => simp
  | @cons d m ds books item items ih =>
    by_cases deep : ∀ side, 5 ≤ (m.2 side).length
    · obtain ⟨datetime, rest⟩ := exec_onDepth_deep item deep ds s
      rw [rest] at ok
      exact List.forall_mem_cons.mpr ⟨deep, ih ok⟩
    · push Not at deep
      obtain ⟨u, failed⟩ := exec_onDepth_thin item deep ds s
      simp [failed] at ok

theorem pushesBooks_of_deep (items : List.Forall₂ (fun d m => DepthItem d m.1 m.2) ds books)
    (deep : ∀ m ∈ books, ∀ side, 5 ≤ (m.2 side).length) :
    PushesBooks (onDepth ds) s (books.map Prod.snd) := by
  induction items generalizing s with
  | nil => exact ⟨s, [], rfl, by simp, .nil⟩
  | @cons d m ds books item items ih =>
    obtain ⟨here, later⟩ := List.forall_mem_cons.mp deep
    obtain ⟨datetime, rest⟩ := exec_onDepth_deep item here ds s
    obtain ⟨t, ticks, ok, pushed, shown⟩ := ih later
    have first : Shows ((TickData.withBook m.2 (s.api.ticks.getD m.1 .blank)).setDatetime datetime)
        m.2 :=
      shows_setDatetime.mpr (shows_of_deep here)
    refine ⟨t, _ :: ticks, rest.trans ok, ?_, .cons first shown⟩
    rw [pushed, pushed_onTick, List.append_assoc]
    rfl

theorem pushesBooks_onDepth_iff
    (items : List.Forall₂ (fun d m => DepthItem d m.1 m.2) ds books) :
    PushesBooks (onDepth ds) s (books.map Prod.snd) ↔
      ∀ m ∈ books, ∀ side, 5 ≤ (m.2 side).length :=
  ⟨fun ⟨_, _, ok, _, _⟩ => deep_of_exec_ok items ok, pushesBooks_of_deep items⟩

end OkxWebsocketPublicApi

namespace BinanceMdApi

/-- The data of a depth message of Binance. -/
structure DepthData (data : Json.Value) (book : Book) : Prop where
  bids : ∃ v, data.get? "b" = some v ∧ Rows v (book .bid)
  asks : ∃ v, data.get? "a" = some v ∧ Rows v (book .ask)

/-- The packet is one of a stream of a symbol that is subscribed. -/
structure OfStream (s : TickFeed BinanceMdApi) (packet : Json.Value) (symbol channel : AString)
    (data : Json.Value) : Prop where
  stream : ∃ stream name, packet.get? "stream" = some (.string stream) ∧
    splitStream stream = some (name, channel) ∧ s.api.symbolOf name = some symbol
  data : packet.get? "data" = some data

variable {packet data : Json.Value} {symbol channel : AString} {book : Book}
  {s : TickFeed BinanceMdApi}

theorem update_update (f g : TickData → TickData) (s : TickFeed BinanceMdApi) :
    update symbol g (update symbol f s) = update symbol (fun t => g (f t)) s := by
  unfold update
  simp only [TickFeed.updateAt_updateAt]

theorem pushed_onTick (f : TickData → TickData) :
    (onTick symbol (update symbol f s)).pushed =
      s.pushed ++ [f (s.api.ticks.getD symbol .blank)] := by
  simp [onTick, update, TickFeed.getD_updateAt_self]

theorem exec_onPacket (message : OfStream s packet symbol channel data) :
    (onPacket packet).exec s = (onStream symbol channel data).exec s := by
  obtain ⟨⟨stream, name, stream_eq, split, known⟩, data_eq⟩ := message
  have there : packet.contains "stream" = true := by simp [Json.Value.contains, stream_eq]
  rw [onPacket, if_pos there, exec_read_bind_ok (Json.Value.stringOr_of_get? stream_eq), data_eq,
    split]
  simp only [exec_get_bind, known]

/-- The time of the message is stored where it has one. -/
theorem exec_finish (symbol : AString) (data : Json.Value) (s : TickFeed BinanceMdApi)
    (f : TickData → TickData) :
    ∃ datetime : TickData → DateTime, (finish symbol data).exec (update symbol f s) =
      (.ok (), onTick symbol (update symbol (fun t => (f t).setDatetime (datetime t)) s)) := by
  unfold finish
  split
  · exact ⟨fun _ => eventTime data, by rw [exec_modify_bind, exec_modify, update_update]⟩
  · exact ⟨fun t => (f t).datetime, rfl⟩

theorem exec_onDepth (depth : DepthData data book) (symbol : AString) (s : TickFeed BinanceMdApi) :
    ∃ datetime : TickData → DateTime, (onDepth symbol data).exec (update symbol id s) =
      (.ok (), onTick symbol
        (update symbol (fun t => (t.withBook book).setDatetime (datetime t)) s)) := by
  obtain ⟨⟨bids, bids_eq, bidRows⟩, asks, asks_eq, askRows⟩ := depth
  have bidArray : isArray bids = true := by
    obtain ⟨_, rfl, _⟩ := bidRows
    rfl
  have askArray : isArray asks = true := by
    obtain ⟨_, rfl, _⟩ := askRows
    rfl
  obtain ⟨datetime, done⟩ := exec_finish symbol data s (TickData.withBook book)
  refine ⟨datetime, ?_⟩
  rw [onDepth, exec_read_bind_ok (Json.Value.valueOr_of_get? bids_eq),
    exec_read_bind_ok (Json.Value.valueOr_of_get? asks_eq), if_pos bidArray, if_pos askArray,
    exec_bind_ok (TickFeed.exec_storePresent update_update bidRows _ _),
    exec_bind_ok (TickFeed.exec_storePresent update_update askRows _ _)]
  exact done

theorem update_id (message : OfStream s packet symbol channel data) :
    update symbol id s = s := by
  obtain ⟨⟨_, name, -, -, known⟩, -⟩ := message
  have there : symbol ∈ s.api.ticks := by
    unfold symbolOf at known
    grind
  simp [update, TickFeed.updateAt_id there]

/-- A depth message pushes one tick, with its levels over those from before. -/
theorem exec_depth_packet (message : OfStream s packet symbol "depth10" data)
    (depth : DepthData data book) :
    ∃ datetime : TickData → DateTime, (onPacket packet).exec s =
      (.ok (), onTick symbol
        (update symbol (fun t => (t.withBook book).setDatetime (datetime t)) s)) := by
  have done := exec_onDepth depth symbol s
  rw [update_id message] at done
  rw [exec_onPacket message]
  exact done

theorem pushesBooks_onPacket_iff (message : OfStream s packet symbol "depth10" data)
    (depth : DepthData data book) :
    PushesBooks (onPacket packet) s [book] ↔
      ∀ side, ∀ k : Fin 5, (book side).length ≤ k →
        (s.api.ticks.getD symbol .blank).levels side k = 0 := by
  obtain ⟨datetime, ok⟩ := exec_depth_packet message depth
  have pushed : (onTick symbol (update symbol _ s)).pushed = _ :=
    pushed_onTick fun t => (t.withBook book).setDatetime (datetime t)
  rw [← shows_withBook_iff]
  constructor
  · rintro ⟨t, ticks, same, grown, shown⟩
    rw [ok] at same
    obtain rfl := (Prod.mk.inj same).2
    rw [pushed] at grown
    obtain rfl := List.append_cancel_left grown
    exact shows_setDatetime.mp (List.forall₂_cons.mp shown).1
  · intro shown
    exact ⟨_, _, ok, pushed, .cons (shows_setDatetime.mpr shown) .nil⟩

end BinanceMdApi

/-- The handlers of the two channels read nothing behind the end of a list and push ticks that
show the books of a message, exactly where on OKX every book has five levels on each side, and
where on Binance the tick holds nothing behind the end of the book. -/
theorem books_pushed_iff (okx : TickFeed OkxWebsocketPublicApi) (binance : TickFeed BinanceMdApi)
    {ds : List Json.Value} {books : List (AString × Book)}
    (items : List.Forall₂ (fun d m => OkxWebsocketPublicApi.DepthItem d m.1 m.2) ds books)
    {packet data : Json.Value} {symbol : AString} {book : Book}
    (message : BinanceMdApi.OfStream binance packet symbol "depth10" data)
    (depth : BinanceMdApi.DepthData data book) :
    (PushesBooks (OkxWebsocketPublicApi.onDepth ds) okx (books.map Prod.snd) ↔
      ∀ m ∈ books, ∀ side, 5 ≤ (m.2 side).length) ∧
    (PushesBooks (BinanceMdApi.onPacket packet) binance [book] ↔
      ∀ side, ∀ k : Fin 5, (book side).length ≤ k →
        (binance.api.ticks.getD symbol .blank).levels side k = 0) :=
  ⟨OkxWebsocketPublicApi.pushesBooks_onDepth_iff items,
    BinanceMdApi.pushesBooks_onPacket_iff message depth⟩

section Examples

/-- Levels as the exchanges write them: prices and volumes are texts. -/
def rowsOf (prices : List AString) : Json.Value :=
  .array (prices.map fun p => .array [.string p, .string "1"])

def levelsOf (prices : List AString) : List (ℚ × ℚ) := prices.map fun p => (atof p, atof "1")

theorem rows_rowsOf (prices : List AString) : Rows (rowsOf prices) (levelsOf prices) := by
  refine ⟨_, rfl, ?_⟩
  unfold levelsOf
  rw [List.forall₂_map_left_iff, List.forall₂_map_right_iff, List.forall₂_same]
  exact fun p _ => ⟨_, _, _, rfl, rfl⟩

def bookOf (bids asks : List AString) : Book
  | .bid => levelsOf bids
  | .ask => levelsOf asks

def fiveBids : List AString := ["100", "99", "98", "97", "96"]
def fiveAsks : List AString := ["101", "102", "103", "104", "105"]

namespace OkxWebsocketPublicApi

def itemOf (bids asks : List AString) : Json.Value :=
  .object [("asks", rowsOf asks), ("bids", rowsOf bids), ("instId", .string "BTC-USDT-SWAP"),
    ("ts", .string "1700000000000")]

theorem depthItem_itemOf (bids asks : List AString) :
    DepthItem (itemOf bids asks) "BTC-USDT-SWAP" (bookOf bids asks) where
  instId := rfl
  bids := ⟨_, rfl, rows_rowsOf bids⟩
  asks := ⟨_, rfl, rows_rowsOf asks⟩
  ts := ⟨_, rfl⟩

end OkxWebsocketPublicApi

namespace BinanceMdApi

def swap : ContractData :=
  { symbol := "BTCUSDT_SWAP", exchange := .binance, name := "BTCUSDT", product := .swap
    pricetick := 1 / 10 }

/-- The symbol has been subscribed. -/
def subscribedFeed : TickFeed BinanceMdApi :=
  { api := [.contract swap, .subscribe { symbol := "BTCUSDT_SWAP", exchange := .binance } 0].foldl
      step {} }

def dataOf (bids asks : List AString) : Json.Value :=
  .object [("a", rowsOf asks), ("b", rowsOf bids), ("E", .int 1700000000000)]

def packetOf (channel : AString) (data : Json.Value) : Json.Value :=
  .object [("data", data), ("stream", .string ("btcusdt@" ++ channel))]

theorem depthData_dataOf (bids asks : List AString) :
    DepthData (dataOf bids asks) (bookOf bids asks) :=
  ⟨⟨_, rfl, rows_rowsOf bids⟩, ⟨_, rfl, rows_rowsOf asks⟩⟩

/-- The feed after a message with five levels on each side. -/
def deepFeed : TickFeed BinanceMdApi :=
  (onPacket (packetOf "depth10" (dataOf fiveBids fiveAsks))).state subscribedFeed

theorem ofStream_packetOf {s : TickFeed BinanceMdApi}
    (known : s.api.symbolOf "btcusdt" = some "BTCUSDT_SWAP") (data : Json.Value) :
    OfStream s (packetOf "depth10" data) "BTCUSDT_SWAP" "depth10" data where
  stream := ⟨_, "btcusdt", rfl, by decide +kernel, known⟩
  data := rfl

end BinanceMdApi

/-- Five levels on each side are shown on both. -/
theorem deep_books_pushed :
    PushesBooks (OkxWebsocketPublicApi.onDepth [OkxWebsocketPublicApi.itemOf fiveBids fiveAsks])
      { api := {} } [bookOf fiveBids fiveAsks] ∧
    PushesBooks
      (BinanceMdApi.onPacket
        (BinanceMdApi.packetOf "depth10" (BinanceMdApi.dataOf fiveBids fiveAsks)))
      BinanceMdApi.subscribedFeed [bookOf fiveBids fiveAsks] := by
  have items : List.Forall₂ (fun d m => OkxWebsocketPublicApi.DepthItem d m.1 m.2)
      [OkxWebsocketPublicApi.itemOf fiveBids fiveAsks]
      [("BTC-USDT-SWAP", bookOf fiveBids fiveAsks)] :=
    .cons (OkxWebsocketPublicApi.depthItem_itemOf fiveBids fiveAsks) .nil
  obtain ⟨okx, binance⟩ := books_pushed_iff { api := {} } BinanceMdApi.subscribedFeed items
    (BinanceMdApi.ofStream_packetOf (by decide +kernel) _)
    (BinanceMdApi.depthData_dataOf fiveBids fiveAsks)
  have five : ∀ side, 5 = (bookOf fiveBids fiveAsks side).length := by
    intro side
    cases side <;> rfl
  refine ⟨okx.mpr fun m mem side => ?_, binance.mpr fun side k short => ?_⟩
  · obtain rfl := List.mem_singleton.mp mem
    exact (five side).le
  · have := five side
    omega

/-- Four bids are read behind their end on OKX. On Binance a book of one level leaves the four
levels of the message before it in the tick that is pushed. -/
theorem thin_books_missed :
    ¬PushesBooks
        (OkxWebsocketPublicApi.onDepth [OkxWebsocketPublicApi.itemOf (fiveBids.take 4) fiveAsks])
        { api := {} } [bookOf (fiveBids.take 4) fiveAsks] ∧
      ¬PushesBooks
        (BinanceMdApi.onPacket
          (BinanceMdApi.packetOf "depth10" (BinanceMdApi.dataOf fiveBids ["110"])))
        BinanceMdApi.deepFeed [bookOf fiveBids ["110"]] := by
  constructor
  · have items : List.Forall₂ (fun d m => OkxWebsocketPublicApi.DepthItem d m.1 m.2)
        [OkxWebsocketPublicApi.itemOf (fiveBids.take 4) fiveAsks]
        [("BTC-USDT-SWAP", bookOf (fiveBids.take 4) fiveAsks)] :=
      .cons (OkxWebsocketPublicApi.depthItem_itemOf (fiveBids.take 4) fiveAsks) .nil
    intro pushes
    have deep := (OkxWebsocketPublicApi.pushesBooks_onDepth_iff items).mp pushes _
      (List.mem_singleton.mpr rfl) .bid
    exact absurd deep (by decide)
  · rw [BinanceMdApi.pushesBooks_onPacket_iff (BinanceMdApi.ofStream_packetOf (by decide +kernel) _)
      (BinanceMdApi.depthData_dataOf fiveBids ["110"])]
    intro clear
    exact absurd (clear .ask 4 (by decide)) (by decide +kernel)

end Examples

end KeenTrader.Exchange
