import KeenTrader.Exchange.PositionMode

/-!
# When OKX is ready

Connecting OKX queries the instruments of each product. The answers come in any order:
`on_query_contract` passes their contracts on and notes their products, and once it has noted
as many products as there are, it queries the orders and connects the websockets. The products
stay noted when the exchange is connected again.
-/

namespace KeenTrader.Exchange

open KeenTrader.Engine Handlers Runs

namespace Okx

def productOkx2kt : Table AString Product :=
  [("FUTURES", .futures), ("SPOT", .spot), ("SWAP", .swap)]

end Okx

open Okx

/-- What the websocket clients are connected with. -/
structure Access where
  server : AString
  proxyHost : AString
  proxyPort : ℤ
  key : AString
  secret : AString
  passphrase : AString
  deriving DecidableEq

/-- What is done with the answers, in this order. -/
inductive Act where
  | onContract (contract : ContractData)
  | queryOrder
  | connectWsApi (access : Access)
  deriving DecidableEq

namespace Act

def isQueryOrder : Act → Bool
  | queryOrder => true
  | _ => false

def isConnectWsApi : Act → Bool
  | connectWsApi _ => true
  | _ => false

end Act

/-- `OkxExchange` with the part of `OkxRestApi` that waits for the instruments. The table of the
products is not constant: a product that is looked up and missing is added to it. -/
structure OkxStartup where
  session : OkxSession := {}
  productOkx2kt : Table AString Product := Okx.productOkx2kt
  productReady : Finset Product := ∅
  acts : List Act := []

namespace OkxStartup

abbrev Handle := Handler Fault OkxStartup

def writeLog (s : OkxStartup) (msg : AString) : OkxStartup :=
  { s with session.exchange := s.session.exchange.writeLog msg }

def onContract (s : OkxStartup) (contract : ContractData) : OkxStartup :=
  { s with
    session.exchange := s.session.exchange.onContract contract
    acts := s.acts ++ [.onContract contract] }

def access (s : OkxStartup) : Access :=
  { server := s.session.server, proxyHost := s.session.proxyHost, proxyPort := s.session.proxyPort
    key := s.session.key, secret := s.session.secret, passphrase := s.session.passphrase }

def connectWsApi (s : OkxStartup) : OkxStartup :=
  { s with acts := s.acts ++ [.connectWsApi s.access] }

def queryOrder (s : OkxStartup) : OkxStartup :=
  { s with
    session.rest := s.session.rest.request
      { method := "GET", path := "/api/v5/trade/orders-pending" }
    acts := s.acts ++ [.queryOrder] }

/-- The instruments of a product that has been added are queried as well. -/
def connect (s : OkxStartup) (setting : Json.Value) (connectTime : ℕ) : OkxStartup :=
  match (OkxSession.connect setting connectTime).exec s.session with
  | (.error _, session) => { s with session }
  | (.ok _, session) =>
    let added := s.productOkx2kt.filter fun product => (Okx.productOkx2kt.lookup product.1).isNone
    let rest := (added.map fun product => OkxRestApi.queryContract product.1).foldl
      OkxRestApi.request session.rest
    { s with session := { session with rest } }

/-- `operator[]` of a map that is not constant. -/
def addProduct (s : OkxStartup) (instType : AString) : OkxStartup :=
  match s.productOkx2kt.lookup instType with
  | some _ => s
  | none => { s with productOkx2kt := s.productOkx2kt ++ [(instType, default)] }

/-- The loop of `on_query_contract`, with the product that it has seen last. -/
def onInstruments (instType : AString) : List Json.Value → Handle AString
  | [] => pure instType
  | d :: ds => do
    let name ← read (d.get "instId" >>= Json.Value.string?)
    let instIdCode ← read (jsonToInt <$> d.get "instIdCode")
    let instType ← read (d.get "instType" >>= Json.Value.string?)
    modify (·.addProduct instType)
    let product := (← get).productOkx2kt.at instType
    let size ← if product = .spot then pure 1 else read (jsonToFloat <$> d.get "ctMult")
    let pricetick ← read (jsonToFloat <$> d.get "tickSz")
    let minVolume ← read (jsonToFloat <$> d.get "minSz")
    modify (·.onContract
      { symbol := name, exchange := .okx, name, instIdCode, product, size, pricetick, minVolume
        historyData := true, netPosition := true, exchangeName := OkxExchange.exchangeName })
    modify fun s => { s with productReady := insert product s.productReady }
    onInstruments instType ds

def onQueryContract (packet : Json.Value) : Handle Unit := do
  let instType ← onInstruments "" (← read (packet.get "data")).items
  modify (·.writeLog s!"{instType} contract information query successful")
  let s ← get
  if s.productReady.card = s.productOkx2kt.length then set s.queryOrder.connectWsApi

def onReply (s : OkxStartup) (packet : Json.Value) : OkxStartup := (onQueryContract packet).state s

/-! ## Connecting and its answers -/

/-- An instrument of one product, with all that is read of it. -/
structure Instrument (instType : AString) (d : Json.Value) : Prop where
  name : ∃ name, d.get? "instId" = some (.string name)
  type : d.get? "instType" = some (.string instType)
  numbers : ∀ key ∈ ["instIdCode", "tickSz", "minSz"], (d.get? key).isSome
  size : instType ≠ "SPOT" → (d.get? "ctMult").isSome

/-- The answer with the instruments of one product. -/
structure InstrumentReply where
  instType : AString
  packet : Json.Value
  data : List Json.Value
  data_eq : packet.get? "data" = some (.array data)
  instruments : ∀ d ∈ data, Instrument instType d
  nonempty : data ≠ []

def InstrumentReply.product (r : InstrumentReply) : Product := Okx.productOkx2kt.at r.instType

/-- A call of `connect`, and the answers to it in the order of their arrival. -/
structure Cycle where
  setting : Json.Value
  connectTime : ℕ
  replies : List InstrumentReply
  asks : ∃ mode, OkxSession.Asks setting mode
  each : (replies.map (·.instType)).Perm (Okx.productOkx2kt.map Prod.fst)

def cycle (s : OkxStartup) (c : Cycle) : OkxStartup :=
  c.replies.foldl (fun s r => s.onReply r.packet) (s.connect c.setting c.connectTime)

/-- The contract of an instrument has been passed on. -/
def Passed (acts : List Act) (d : Json.Value) : Prop :=
  ∃ contract, .onContract contract ∈ acts ∧ d.get? "instId" = some (.string contract.name) ∧
    ∃ instType, d.get? "instType" = some (.string instType) ∧
      Okx.productOkx2kt.lookup instType = some contract.product

/-- In the cycle the orders are queried once and the websockets connected once, after all its
instruments have been passed on. -/
structure StartsOnce (s : OkxStartup) (c : Cycle) : Prop where
  queries : ((s.cycle c).acts.drop s.acts.length).countP Act.isQueryOrder = 1
  connects : ((s.cycle c).acts.drop s.acts.length).countP Act.isConnectWsApi = 1
  ready : ∀ before a after, (s.cycle c).acts.drop s.acts.length = before ++ a :: after →
    a.isQueryOrder ∨ a.isConnectWsApi → ∀ r ∈ c.replies, ∀ d ∈ r.data, Passed before d

variable {s t : OkxStartup} {instType : AString} {product : Product}

theorem Passed.mono {acts acts' : List Act} {d : Json.Value} (passed : Passed acts d)
    (more : acts ⊆ acts') : Passed acts' d := by
  obtain ⟨contract, mem, tells⟩ := passed
  exact ⟨contract, more mem, tells⟩

/-! ## One answer -/

/-- What the loop does with the instruments of one product. -/
structure PassedOn (product : Product) (ds : List Json.Value) (s t : OkxStartup) : Prop where
  table : t.productOkx2kt = s.productOkx2kt
  ready : ∀ p, p ∈ t.productReady ↔ p ∈ s.productReady ∨ ds ≠ [] ∧ p = product
  acts : ∃ contracts : List ContractData, t.acts = s.acts ++ contracts.map .onContract ∧
    ∀ d ∈ ds, Passed (contracts.map .onContract) d

theorem addProduct_known (found : s.productOkx2kt.lookup instType = some product) :
    s.addProduct instType = s := by
  simp [addProduct, found]

theorem read_member {d : Json.Value} {key : AString} {α : Type} {f : Json.Value → α}
    (present : (d.get? key).isSome) : ∃ a, f <$> d.get key = .ok a := by
  obtain ⟨m, found⟩ := Option.isSome_iff_exists.mp present
  exact ⟨f m, Json.Value.map_get_of_get? found⟩

/-- One instrument is passed on and its product noted. -/
theorem exec_onInstruments_cons {d : Json.Value} (ds : List Json.Value) (last : AString)
    (instrument : Instrument instType d)
    (found : s.productOkx2kt.lookup instType = some product)
    (spot : product = .spot ↔ instType = "SPOT") :
    ∃ contract : ContractData, d.get? "instId" = some (.string contract.name) ∧
      contract.product = product ∧
      (onInstruments last (d :: ds)).exec s = (onInstruments instType ds).exec
        { s.onContract contract with productReady := insert product s.productReady } := by
  obtain ⟨name, name_eq⟩ := instrument.name
  obtain ⟨code, code_eq⟩ := read_member (f := jsonToInt)
    (instrument.numbers "instIdCode" (by simp))
  obtain ⟨tick, tick_eq⟩ := read_member (f := jsonToFloat) (instrument.numbers "tickSz" (by simp))
  obtain ⟨volume, volume_eq⟩ := read_member (f := jsonToFloat)
    (instrument.numbers "minSz" (by simp))
  rw [onInstruments, exec_read_bind_ok (Json.Value.getString_of_get? name_eq),
    exec_read_bind_ok code_eq, exec_read_bind_ok (Json.Value.getString_of_get? instrument.type),
    exec_modify_bind, exec_get_bind, addProduct_known found]
  have product_eq : s.productOkx2kt.at instType = product := by simp [Table.at, found]
  rw [product_eq]
  by_cases is_spot : product = .spot
  · rw [if_pos is_spot, pure_bind, exec_read_bind_ok tick_eq, exec_read_bind_ok volume_eq,
      exec_modify_bind, exec_modify_bind]
    exact ⟨_, name_eq, rfl, rfl⟩
  · obtain ⟨size, size_eq⟩ := read_member (f := jsonToFloat)
      (instrument.size fun word => is_spot (spot.mpr word))
    rw [if_neg is_spot, exec_read_bind_ok size_eq, exec_read_bind_ok tick_eq,
      exec_read_bind_ok volume_eq, exec_modify_bind, exec_modify_bind]
    exact ⟨_, name_eq, rfl, rfl⟩

/-- The words and the products of the table go together. -/
theorem lookup_cases (found : Okx.productOkx2kt.lookup instType = some product) :
    instType = "FUTURES" ∧ product = .futures ∨ instType = "SPOT" ∧ product = .spot ∨
      instType = "SWAP" ∧ product = .swap := by
  simp only [Okx.productOkx2kt, List.lookup_cons, List.lookup_nil] at found
  grind

/-- The instruments of one product are all passed on. -/
theorem exec_onInstruments (ds : List Json.Value) (last : AString) (s : OkxStartup)
    (table : s.productOkx2kt = Okx.productOkx2kt)
    (found : Okx.productOkx2kt.lookup instType = some product)
    (instruments : ∀ d ∈ ds, Instrument instType d) :
    ∃ last' t, (onInstruments last ds).exec s = (.ok last', t) ∧ PassedOn product ds s t := by
  induction ds generalizing last s with
  | nil => exact ⟨last, s, rfl, rfl, by simp, [], by simp, by simp⟩
  | cons d ds ih =>
    have instrument := instruments d (by simp)
    have spot : product = .spot ↔ instType = "SPOT" := by
      obtain ⟨rfl, rfl⟩ | ⟨rfl, rfl⟩ | ⟨rfl, rfl⟩ := lookup_cases found <;> decide
    obtain ⟨contract, name, product_eq, first⟩ :=
      exec_onInstruments_cons (s := s) ds last instrument (by rw [table, found]) spot
    obtain ⟨last', t, rest, passed⟩ := ih instType
      { s.onContract contract with productReady := insert product s.productReady } table
      fun d mem => instruments d (by simp [mem])
    obtain ⟨contracts, acts, each⟩ := passed.acts
    refine ⟨last', t, first.trans rest, passed.table, fun p => ?_, contract :: contracts, ?_, ?_⟩
    · rw [passed.ready, Finset.mem_insert]
      simp only [ne_eq, reduceCtorEq, not_false_eq_true, true_and]
      tauto
    · rw [acts]
      simp [onContract]
    · intro d' mem
      rcases List.mem_cons.mp mem with rfl | mem
      · exact ⟨contract, by simp, name, instType, instrument.type, by rw [found, product_eq]⟩
      · exact (each d' mem).mono (List.subset_cons_self _ _)

/-- What an answer adds: contracts that are passed on, and then perhaps the start. -/
def answer (contracts : List ContractData) (access : Access) (start : Bool) : List Act :=
  contracts.map .onContract ++ if start then [.queryOrder, .connectWsApi access] else []

theorem countP_isQueryOrder_answer (contracts : List ContractData) (access : Access)
    (start : Bool) : (answer contracts access start).countP Act.isQueryOrder = start.toNat := by
  have none : (contracts.map Act.onContract).countP Act.isQueryOrder = 0 := by
    simp [List.countP_eq_zero, Act.isQueryOrder]
  rw [answer, List.countP_append, none]
  cases start <;> rfl

theorem countP_isConnectWsApi_answer (contracts : List ContractData) (access : Access)
    (start : Bool) : (answer contracts access start).countP Act.isConnectWsApi = start.toNat := by
  have none : (contracts.map Act.onContract).countP Act.isConnectWsApi = 0 := by
    simp [List.countP_eq_zero, Act.isConnectWsApi]
  rw [answer, List.countP_append, none]
  cases start <;> rfl

/-- What an answer does: it starts the exchange where it makes the products complete. -/
structure Replied (r : InstrumentReply) (s t : OkxStartup) : Prop where
  table : t.productOkx2kt = s.productOkx2kt
  ready : t.productReady = insert r.product s.productReady
  acts : ∃ (contracts : List ContractData) (access : Access),
    t.acts = s.acts ++ answer contracts access (t.productReady.card = 3) ∧
    ∀ d ∈ r.data, Passed (contracts.map .onContract) d

theorem lookup_product {r : InstrumentReply} (known : r.instType ∈ Okx.productOkx2kt.map Prod.fst) :
    Okx.productOkx2kt.lookup r.instType = some r.product := by
  rw [InstrumentReply.product, Table.at]
  simp only [Okx.productOkx2kt, List.map_cons, List.map_nil, List.mem_cons, List.not_mem_nil,
    or_false] at known
  rcases known with word | word | word <;> rw [word] <;> rfl

theorem replied_onReply (r : InstrumentReply) (table : s.productOkx2kt = Okx.productOkx2kt)
    (known : r.instType ∈ Okx.productOkx2kt.map Prod.fst) : Replied r s (s.onReply r.packet) := by
  obtain ⟨last, t, looped, passed⟩ :=
    exec_onInstruments r.data "" s table (lookup_product known) r.instruments
  have ready : t.productReady = insert r.product s.productReady := by
    ext p
    rw [passed.ready, Finset.mem_insert]
    simp only [r.nonempty, ne_eq, not_false_eq_true, true_and]
    tauto
  have size : t.productOkx2kt.length = 3 := by rw [passed.table, table]; rfl
  obtain ⟨contracts, acts, each⟩ := passed.acts
  have done : s.onReply r.packet =
      let t := t.writeLog s!"{last} contract information query successful"
      if t.productReady.card = t.productOkx2kt.length then t.queryOrder.connectWsApi else t := by
    unfold onReply Handler.state onQueryContract
    rw [exec_read_bind_ok (Json.Value.get_of_get? r.data_eq)]
    simp only [Json.Value.items]
    rw [exec_bind_ok looped, exec_modify_bind, exec_get_bind]
    split <;> rfl
  rw [done]
  dsimp only
  refine ⟨?_, ?_, contracts, t.access, ?_, each⟩
  · split <;> exact passed.table
  · split <;> exact ready
  · rw [answer, ← List.append_assoc, ← acts]
    by_cases full : t.productReady.card = t.productOkx2kt.length
    · rw [if_pos (by exact full), if_pos (by exact decide_eq_true (full.trans size))]
      exact List.append_assoc t.acts [.queryOrder] [.connectWsApi t.access]
    · have few : ¬decide (t.productReady.card = 3) = true := by simpa [size] using full
      rw [if_neg (by exact full), if_neg (by exact few), List.append_nil]
      rfl

/-! ## One cycle -/

variable {c : Cycle}

theorem connect_keeps (setting : Json.Value) (connectTime : ℕ) :
    (s.connect setting connectTime).productOkx2kt = s.productOkx2kt ∧
      (s.connect setting connectTime).productReady = s.productReady ∧
      (s.connect setting connectTime).acts = s.acts := by
  unfold connect
  split <;> exact ⟨rfl, rfl, rfl⟩

namespace Cycle

/-- The products of the three answers differ. -/
theorem products_perm (c : Cycle) :
    (c.replies.map (·.product)).Perm [.futures, .spot, .swap] := by
  have mapped := c.each.map Okx.productOkx2kt.at
  rwa [List.map_map] at mapped

theorem exists_replies (c : Cycle) : ∃ x y z, c.replies = [x, y, z] := by
  have size := c.each.length_eq
  rw [List.length_map] at size
  exact List.length_eq_three.mp size

theorem known (c : Cycle) {r : InstrumentReply} (mem : r ∈ c.replies) :
    r.instType ∈ Okx.productOkx2kt.map Prod.fst :=
  c.each.mem_iff.mp (List.mem_map_of_mem mem)

end Cycle

/-- The three answers of a cycle, one after the other. -/
structure Answered (c : Cycle) (s t : OkxStartup) (x y z : InstrumentReply)
    (new : List Act) : Prop where
  replies : c.replies = [x, y, z]
  table : t.productOkx2kt = Okx.productOkx2kt
  ready : t.productReady = insert z.product (insert y.product (insert x.product s.productReady))
  acts : ∃ (cx cy cz : List ContractData) (ax ay az : Access),
    new = answer cx ax ((insert x.product s.productReady).card = 3) ++
      (answer cy ay ((insert y.product (insert x.product s.productReady)).card = 3) ++
        answer cz az (t.productReady.card = 3)) ∧
    ∀ r ∈ c.replies, ∀ d ∈ r.data, Passed ((cx ++ cy ++ cz).map .onContract) d

theorem exists_answered (c : Cycle) (table : s.productOkx2kt = Okx.productOkx2kt) :
    ∃ x y z, Answered c s (s.cycle c) x y z ((s.cycle c).acts.drop s.acts.length) := by
  obtain ⟨x, y, z, replies⟩ := c.exists_replies
  obtain ⟨table₀, ready₀, acts₀⟩ := connect_keeps (s := s) c.setting c.connectTime
  have known {r : InstrumentReply} (mem : r ∈ [x, y, z]) := c.known (replies ▸ mem)
  have first := replied_onReply x (table₀.trans table) (known (by simp))
  have second := replied_onReply y (first.table.trans (table₀.trans table)) (known (by simp))
  have third := replied_onReply z (second.table.trans (first.table.trans (table₀.trans table)))
    (known (by simp))
  obtain ⟨cx, ax, actsX, passedX⟩ := first.acts
  obtain ⟨cy, ay, actsY, passedY⟩ := second.acts
  obtain ⟨cz, az, actsZ, passedZ⟩ := third.acts
  have after : s.cycle c = (((s.connect c.setting c.connectTime).onReply x.packet).onReply
      y.packet).onReply z.packet := by
    rw [cycle, replies]
    rfl
  rw [after]
  refine ⟨x, y, z, replies, third.table.trans (second.table.trans (first.table.trans
    (table₀.trans table))), ?_, cx, cy, cz, ax, ay, az, ?_, ?_⟩
  · rw [third.ready, second.ready, first.ready, ready₀]
  · rw [actsZ, actsY, actsX, acts₀, second.ready, first.ready, ready₀]
    simp only [List.append_assoc, List.drop_left]
  · intro r mem d mem'
    rw [replies] at mem
    simp only [List.map_append]
    rcases List.mem_cons.mp mem with rfl | mem
    · exact (passedX d mem').mono fun a => by simp +contextual
    rcases List.mem_cons.mp mem with rfl | mem
    · exact (passedY d mem').mono fun a => by simp +contextual
    · rw [List.mem_singleton.mp mem] at mem'
      exact (passedZ d mem').mono fun a => by simp +contextual

/-! ## All cycles -/

abbrev allProducts : Finset Product := {.futures, .spot, .swap}

namespace Answered

variable {x y z : InstrumentReply} {new : List Act}

theorem perm (answered : Answered c s t x y z new) :
    [x.product, y.product, z.product].Perm [.futures, .spot, .swap] := by
  have perm := c.products_perm
  rwa [answered.replies] at perm

theorem mem_allProducts (answered : Answered c s t x y z new) (p : Product) :
    p = x.product ∨ p = y.product ∨ p = z.product ↔ p ∈ allProducts := by
  have mem := answered.perm.mem_iff (a := p)
  simpa using mem

/-- After a cycle all products are noted. -/
theorem ready_all (answered : Answered c s t x y z new) (sub : s.productReady ⊆ allProducts) :
    t.productReady = allProducts := by
  ext p
  rw [answered.ready, ← answered.mem_allProducts]
  simp only [Finset.mem_insert]
  have old : p ∈ s.productReady → p = x.product ∨ p = y.product ∨ p = z.product :=
    fun mem => (answered.mem_allProducts p).mpr (sub mem)
  tauto

/-- In the first cycle the last answer starts the exchange. -/
theorem acts_fresh (answered : Answered c s t x y z new) (fresh : s.productReady = ∅) :
    ∃ (contracts : List ContractData) (access : Access), new = answer contracts access true ∧
      ∀ r ∈ c.replies, ∀ d ∈ r.data, Passed (contracts.map .onContract) d := by
  obtain ⟨cx, cy, cz, ax, ay, az, acts, passed⟩ := answered.acts
  have differ : x.product ≠ y.product := by
    have nodup := answered.perm.nodup_iff.mpr (by decide)
    simp only [List.nodup_cons, List.mem_cons, not_or] at nodup
    exact nodup.1.1
  have one : (insert x.product s.productReady).card = 1 := by rw [fresh]; rfl
  have two : (insert y.product (insert x.product s.productReady)).card = 2 := by
    rw [fresh]
    exact Finset.card_pair differ.symm
  have three : t.productReady.card = 3 := by
    rw [answered.ready_all (by simp [fresh])]
    rfl
  refine ⟨cx ++ cy ++ cz, az, ?_, passed⟩
  rw [acts, one, two, three]
  simp [answer]

/-- In every later cycle each answer starts the exchange. -/
theorem acts_again (answered : Answered c s t x y z new) (full : s.productReady = allProducts) :
    ∃ (cx cy cz : List ContractData) (ax ay az : Access),
      new = answer cx ax true ++ (answer cy ay true ++ answer cz az true) := by
  obtain ⟨cx, cy, cz, ax, ay, az, acts, -⟩ := answered.acts
  have noted (p : Product) (mem : p = x.product ∨ p = y.product ∨ p = z.product) :
      insert p allProducts = allProducts :=
    Finset.insert_eq_of_mem ((answered.mem_allProducts p).mp mem)
  refine ⟨cx, cy, cz, ax, ay, az, ?_⟩
  rw [acts, answered.ready, full, noted _ (.inl rfl), noted _ (.inr (.inl rfl)),
    noted _ (.inr (.inr rfl))]
  rfl

end Answered

/-- What comes before the first start are all the contracts. -/
theorem contracts_before {contracts : List ContractData} {access : Access} {before after : List Act}
    {a : Act} (split : answer contracts access true = before ++ a :: after)
    (starts : a.isQueryOrder ∨ a.isConnectWsApi) : contracts.map Act.onContract <+: before := by
  rcases List.append_eq_append_iff.mp split with ⟨more, before_eq, -⟩ | ⟨more, part, rest⟩
  · exact ⟨more, before_eq.symm⟩
  · cases more with
    | nil => exact ⟨[], by simpa using part⟩
    | cons b more =>
      obtain ⟨rfl, -⟩ := List.cons.inj rest
      have contract : a ∈ contracts.map Act.onContract := by simp [part]
      obtain ⟨contract, -, rfl⟩ := List.mem_map.mp contract
      simp [Act.isQueryOrder, Act.isConnectWsApi] at starts

/-- The first cycle starts the exchange as it should. -/
theorem startsOnce_of_fresh (table : s.productOkx2kt = Okx.productOkx2kt)
    (fresh : s.productReady = ∅) : StartsOnce s c := by
  obtain ⟨x, y, z, answered⟩ := exists_answered c table
  obtain ⟨contracts, access, new, passed⟩ := answered.acts_fresh fresh
  refine ⟨?_, ?_, fun before a after split starts r mem d mem' => ?_⟩
  · rw [new, countP_isQueryOrder_answer]
    rfl
  · rw [new, countP_isConnectWsApi_answer]
    rfl
  · rw [new] at split
    exact (passed r mem d mem').mono (contracts_before split starts).subset

theorem not_startsOnce_again (table : s.productOkx2kt = Okx.productOkx2kt)
    (full : s.productReady = allProducts) : ¬StartsOnce s c := by
  intro once
  obtain ⟨x, y, z, answered⟩ := exists_answered c table
  obtain ⟨cx, cy, cz, ax, ay, az, new⟩ := answered.acts_again full
  have queries := once.queries
  rw [new, List.countP_append, List.countP_append, countP_isQueryOrder_answer,
    countP_isQueryOrder_answer, countP_isQueryOrder_answer] at queries
  exact absurd queries (by decide)

/-- After the first cycle the exchange is started with every answer of the next. -/
theorem not_startsOnce_second (c c' : Cycle) : ¬StartsOnce (({} : OkxStartup).cycle c) c' := by
  obtain ⟨x, y, z, answered⟩ := exists_answered (s := {}) c rfl
  exact not_startsOnce_again answered.table (answered.ready_all (Finset.empty_subset _))

/-- The exchange is started once in each cycle exactly if there is one cycle at most. -/
theorem starts_once_iff (cycles : List Cycle) :
    Meets cycle StartsOnce {} cycles ↔ cycles.length ≤ 1 := by
  match cycles with
  | [] => simp
  | [c] => simpa using startsOnce_of_fresh rfl rfl
  | c :: c' :: cycles =>
    refine iff_of_false ?_ (by simp)
    rintro ⟨-, again, -⟩
    exact not_startsOnce_second c c' again

/-- The answer for one instrument of a product. -/
def oneInstrument (word : AString) : Json.Value :=
  .object
    [("instId", .string "BTC-USDT"), ("instIdCode", .int 1), ("instType", .string word),
     ("ctMult", .string "1"), ("tickSz", .string "0.1"), ("minSz", .string "1")]

def oneReply (word : AString) : InstrumentReply where
  instType := word
  packet := .object [("data", .array [oneInstrument word])]
  data := [oneInstrument word]
  data_eq := rfl
  instruments := by
    intro d mem
    rw [List.mem_singleton.mp mem]
    refine ⟨⟨_, rfl⟩, rfl, ?_, fun _ => rfl⟩
    simp [oneInstrument, Json.Value.get?]
  nonempty := by simp

/-- A connection to the real server, and the three answers. -/
def realCycle : Cycle where
  setting := .object [("server", .string "REAL")]
  connectTime := 0
  replies := [oneReply "FUTURES", oneReply "SPOT", oneReply "SWAP"]
  asks := by
    refine ⟨_, "REAL", false, ⟨?_, ⟨0, rfl⟩, rfl, rfl⟩, rfl, rfl⟩
    simp only [List.mem_cons, List.not_mem_nil, or_false]
    rintro key (rfl | rfl | rfl | rfl) <;> exact ⟨"", rfl⟩
  each := .refl _

/-- An exchange that is connected twice is started four times. -/
theorem connected_twice :
    ¬ ∀ cycles, Meets cycle StartsOnce {} cycles := by
  intro all
  exact not_startsOnce_second realCycle realCycle (all [realCycle, realCycle]).2.1

end OkxStartup

end KeenTrader.Exchange
