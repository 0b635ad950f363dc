import KeenTrader.App.Registry

/-!
# Restarts

The engine keeps the settings of its strategies in a file, from which a new engine makes the
strategies again. Here an engine runs with restarts in between and with strategy classes that come
and go.
-/

namespace KeenTrader.App

open Std (ExtTreeMap ExtTreeSet)
open Containers Handlers Runs KeenTrader.Engine

namespace CtaEngine

/-! ## What only settings change -/

/-- The classes, the strategies, their settings and the setting file are what they were. -/
structure Still (s t : CtaEngine) : Prop where
  classes : t.classes = s.classes
  setting : t.strategySetting = s.strategySetting
  file : t.settingFile = s.settingFile
  strategies : t.strategies = s.strategies
  className : ∀ p, (t.objects p).className = (s.objects p).className
  ktSymbol : ∀ p, (t.objects p).ktSymbol = (s.objects p).ktSymbol

variable {env : Environment} {s t u : CtaEngine}

theorem Still.refl (s : CtaEngine) : Still s s :=
  ⟨rfl, rfl, rfl, rfl, fun _ => rfl, fun _ => rfl⟩

theorem Still.trans (first : Still s t) (second : Still t u) : Still s u where
  classes := second.classes.trans first.classes
  setting := second.setting.trans first.setting
  file := second.file.trans first.file
  strategies := second.strategies.trans first.strategies
  className p := (second.className p).trans (first.className p)
  ktSymbol p := (second.ktSymbol p).trans (first.ktSymbol p)

theorem Action.still (action : Action env s t) : Still s t := by
  have objects := action.frame.objects
  have same : t.classes = s.classes ∧ t.settingFile = s.settingFile := by
    cases action with
    | send p req exchangeName trading =>
      rcases sendRequest_cases env s p req exchangeName with ⟨-, eq⟩ | ⟨orderid, -, eq⟩ <;> rw [eq]
      · exact ⟨rfl, rfl⟩
      · exact ⟨rfl, rfl⟩
    | _ => exact ⟨rfl, rfl⟩
  exact ⟨same.1, action.strategySetting, same.2, action.frame.strategies,
    fun p => by rw [objects], fun p => by rw [objects]⟩

theorem still_emit (s : CtaEngine) (e : Effect) : Still s (s.emit e) :=
  ⟨rfl, rfl, rfl, rfl, fun _ => rfl, fun _ => rfl⟩

theorem still_writeLog (s : CtaEngine) (msg : AString) (strategy : Option Ptr) :
    Still s (s.writeLog msg strategy) := by
  cases strategy <;> exact still_emit s _

theorem still_updateObject (s : CtaEngine) {p : Ptr} {f : CtaTemplate → CtaTemplate}
    (className : (f (s.objects p)).className = (s.objects p).className)
    (ktSymbol : (f (s.objects p)).ktSymbol = (s.objects p).ktSymbol) :
    Still s (s.updateObject p f) :=
  ⟨rfl, rfl, rfl, rfl, updateObject_keeps (·.className) s className,
    updateObject_keeps (·.ktSymbol) s ktSymbol⟩

variable (env) in
theorem steady_still : Steady env Still where
  refl := .refl
  trans := .trans
  move move :=
    move.acts.invariant (P := Still _) (fun action now => now.trans action.still) (.refl _)
  callback s _ _ := still_emit s _
  emit s e _ := still_emit s e
  oms _ _ := ⟨rfl, rfl, rfl, rfl, fun _ => rfl, fun _ => rfl⟩
  seen _ _ := ⟨rfl, rfl, rfl, rfl, fun _ => rfl, fun _ => rfl⟩
  forget _ _ _ := ⟨rfl, rfl, rfl, rfl, fun _ => rfl, fun _ => rfl⟩
  pos s _ _ := still_updateObject s rfl rfl
  inited s _ := still_updateObject s rfl rfl

theorem still_startStrategy (name : AString) : Still s (s.startStrategy env name) := by
  unfold startStrategy withStrategy
  have steady := steady_still env
  cases s.strategies[name]? with
  | none => exact .refl s
  | some p =>
    simp only
    split
    · exact still_writeLog s _ none
    split
    · exact still_writeLog s _ none
    · exact ((steady.call s p .onStart).trans (still_updateObject _ rfl rfl)).trans
        (still_emit _ _)

theorem still_stopStrategy (name : AString) : Still s (s.stopStrategy env name) := by
  unfold stopStrategy withStrategy
  have steady := steady_still env
  cases s.strategies[name]? with
  | none => exact .refl s
  | some p =>
    refine iteInduction (motive := Still s) (fun _ => ?_) fun _ => .refl s
    have stopped : Still s ((call env p .onStop s).updateObject p ({ · with trading := false })) :=
      (steady.call s p .onStop).trans (still_updateObject _ rfl rfl)
    exact (stopped.trans (steady.moves (moves_foldl_cancelOrder (reacts_call env) p _ _))).trans
      (still_emit _ _)

/-- Operations that save nothing. -/
def Op.keepsSettings : Op → Bool
  | .addStrategy _ _ _ _ | .editStrategy _ _ | .removeStrategy _ => false
  | _ => true

variable (env) in
theorem still_step (safe : s.Safe) {op : Op} (keeps : op.keepsSettings = true) :
    Still s (s.step env op) := by
  have steady := steady_still env
  have fed (e : OmsEvent) : Still s (s.processOms env e) := steady.oms s _
  cases op with
  | contract c => exact fed _
  | position p => exact fed _
  | order o => exact (fed _).trans (steady.processOrderEvent _ o)
  | trade t => exact (fed _).trans (steady.processTradeEvent _ t)
  | tick t => exact (fed _).trans (steady.processTickEvent (safe.processOms _) t)
  | initStrategy name => exact steady.initStrategy s name
  | startStrategy name => exact still_startStrategy name
  | stopStrategy name => exact still_stopStrategy name
  | addStrategy _ _ _ _ => simp [Op.keepsSettings] at keeps
  | editStrategy _ _ => simp [Op.keepsSettings] at keeps
  | removeStrategy _ => simp [Op.keepsSettings] at keeps

/-! ## Settings that describe the strategies -/

theorem strategyConfig_inj {o o' : CtaTemplate} {setting setting' : Json.Value}
    (same : strategyConfig o setting = strategyConfig o' setting') :
    o.className = o'.className ∧ o.ktSymbol = o'.ktSymbol := by
  simp [strategyConfig] at same
  exact ⟨same.1, same.2.1⟩

/-- Each strategy has its class and a setting with its class and its symbol. Each setting is that of
a strategy, which is registered if its class is there, unless its turn to be added is to come. -/
structure Described (todo : List AString) (s : CtaEngine) : Prop where
  object : ∃ members, s.strategySetting = .object members ∧ (members.map Prod.fst).Nodup
  entry : ∀ name config, s.strategySetting.get? name = some config →
    ∃ o setting, config = strategyConfig o setting ∧ '.' ∈ o.ktSymbol.toList ∧
      (name ∉ todo → o.className ∈ s.classes → ∃ p, s.strategies[name]? = some p ∧
        (s.objects p).className = o.className ∧ (s.objects p).ktSymbol = o.ktSymbol)
  registered : ∀ (name : AString) p, s.strategies[name]? = some p →
    name ∉ todo ∧ (s.objects p).className ∈ s.classes ∧
      ∃ setting, s.strategySetting.get? name = some (strategyConfig (s.objects p) setting)

variable {todo : List AString}

theorem Described.writable (described : s.Described todo) :
    s.strategySetting.writable = true := by
  obtain ⟨members, eq, -⟩ := described.object
  rw [eq]
  rfl

theorem Described.still (described : s.Described todo) (still : Still s t) :
    t.Described todo := by
  constructor
  · rw [still.setting]
    exact described.object
  · rw [still.setting, still.classes, still.strategies]
    intro name config found
    obtain ⟨o, setting, eq, suffix, present⟩ := described.entry name config found
    refine ⟨o, setting, eq, suffix, fun turn known => ?_⟩
    obtain ⟨p, registered, className, ktSymbol⟩ := present turn known
    exact ⟨p, registered, (still.className p).trans className, (still.ktSymbol p).trans ktSymbol⟩
  · rw [still.setting, still.classes, still.strategies]
    intro name p registered
    obtain ⟨turn, known, setting, found⟩ := described.registered name p registered
    have same (setting : Json.Value) :
        strategyConfig (t.objects p) setting = strategyConfig (s.objects p) setting := by
      simp [strategyConfig, still.className p, still.ktSymbol p]
    rw [still.className]
    exact ⟨turn, known, setting, by rw [same]; exact found⟩

/-- A setting that is assigned. -/
theorem distinct_set {v w m : Json.Value} {key : String} {members : List (String × Json.Value)}
    (eq : v = .object members) (distinct : (members.map Prod.fst).Nodup)
    (done : v.set key m = .ok w) :
    ∃ members, w = .object members ∧ (members.map Prod.fst).Nodup := by
  subst eq
  obtain rfl : Json.Value.object (Json.Value.assign key m members) = w := by
    simpa [Json.Value.set] using done
  exact ⟨_, rfl, Json.Value.distinct_assign distinct key m⟩

theorem Described.register (described : s.Described todo) (safe : s.Safe) {className : AString}
    {name ktSymbol : AString} {setting v : Json.Value}
    (accepted : ¬s.AddRefused className name ktSymbol)
    (saved : s.strategySetting.set name
      (strategyConfig { className, strategyName := name, ktSymbol } setting) = .ok v) :
    ((s.register className name ktSymbol).saveSetting v).Described (todo.filter (· ≠ name)) := by
  simp only [AddRefused, not_or, Bool.not_eq_true, Bool.not_eq_false, not_not] at accepted
  obtain ⟨unused, known, suffix⟩ := accepted
  have old : ∀ (n : AString) p, s.strategies[n]? = some p →
      n ≠ name ∧ p ≠ s.nextPtr := by
    intro n p registered
    refine ⟨?_, (safe.names n p registered).2.ne⟩
    rintro rfl
    simp [← ExtTreeMap.contains_iff_mem, ExtTreeMap.contains_eq_isSome_getElem?, registered]
      at unused
  have read (n : AString) :
      ((s.register className name ktSymbol).saveSetting v).strategySetting.get? n =
        if name = n then some (strategyConfig { className, strategyName := name, ktSymbol } setting)
        else s.strategySetting.get? n := Json.Value.get?_set saved n
  constructor
  · obtain ⟨members, eq, distinct⟩ := described.object
    exact distinct_set eq distinct saved
  · intro n config found
    rw [read] at found
    split at found
    · rename_i same
      subst same
      refine ⟨_, setting, (Option.some.inj found).symm, suffix, fun _ _ => ⟨s.nextPtr, ?_⟩⟩
      simp [saveSetting, CtaEngine.register]
    · rename_i other
      obtain ⟨o, setting', eq, suffix', present⟩ := described.entry n config found
      refine ⟨o, setting', eq, suffix', fun turn there => ?_⟩
      obtain ⟨p, registered, className', ktSymbol'⟩ :=
        present (by simpa [Ne.symm other] using turn) there
      refine ⟨p, ?_⟩
      simpa [saveSetting, CtaEngine.register, ExtTreeMap.getElem?_insert, other,
        Function.update_of_ne (old n p registered).2] using ⟨registered, className', ktSymbol'⟩
  · intro n p registered
    rcases getElem?_insert_cases registered with ⟨rfl, rfl⟩ | before
    · refine ⟨by simp, by simpa [saveSetting, CtaEngine.register] using known, setting, ?_⟩
      rw [read, if_pos rfl]
      simp [saveSetting, CtaEngine.register]
    · obtain ⟨turn, there, setting', found⟩ := described.registered n p before
      obtain ⟨other, apart⟩ := old n p before
      have same : ((s.register className name ktSymbol).saveSetting v).objects p = s.objects p :=
        Function.update_of_ne apart _ _
      rw [same]
      refine ⟨by simp [turn], there, setting', ?_⟩
      rw [read, if_neg (Ne.symm other)]
      exact found

theorem Described.assign (described : s.Described todo) {name : AString} {p : Ptr}
    {setting v : Json.Value} (registered : s.strategies[name]? = some p)
    (saved : s.strategySetting.set name (strategyConfig (s.objects p) setting) = .ok v) :
    (s.saveSetting v).Described todo := by
  have read (n : AString) : (s.saveSetting v).strategySetting.get? n =
      if name = n then some (strategyConfig (s.objects p) setting)
      else s.strategySetting.get? n := Json.Value.get?_set saved n
  obtain ⟨turn, there, before, found⟩ := described.registered name p registered
  obtain ⟨o, setting', eq, suffix, -⟩ := described.entry name _ found
  constructor
  · obtain ⟨members, eq, distinct⟩ := described.object
    exact distinct_set eq distinct saved
  · intro n config found
    rw [read] at found
    split at found
    · rename_i same
      subst same
      refine ⟨s.objects p, setting, (Option.some.inj found).symm, ?_, fun _ _ =>
        ⟨p, registered, rfl, rfl⟩⟩
      rw [(strategyConfig_inj eq).2]
      exact suffix
    · exact described.entry n config found
  · intro n q registered'
    obtain ⟨turn, there, setting', found⟩ := described.registered n q registered'
    refine ⟨turn, there, ?_⟩
    rw [read]
    split
    · rename_i same
      subst same
      obtain rfl : p = q := Option.some.inj (registered.symm.trans registered')
      exact ⟨setting, rfl⟩
    · exact ⟨setting', found⟩

theorem Described.erase (described : s.Described todo) {name : AString} {p : Ptr}
    (registered : s.strategies[name]? = some p) (idle : (s.objects p).trading = false) :
    (s.removeStrategy name).Described todo := by
  rw [removeStrategy_eq registered idle]
  have read := Json.Value.get?_erase s.strategySetting name
  constructor
  · obtain ⟨members, eq, distinct⟩ := described.object
    refine ⟨members.filter (·.1 ≠ name), by simp [eq, Json.Value.erase], ?_⟩
    exact distinct.sublist (List.filter_sublist.map _)
  · intro n config found
    rw [read] at found
    split at found
    · contradiction
    · rename_i other
      obtain ⟨o, setting, eq, suffix, present⟩ := described.entry n config found
      refine ⟨o, setting, eq, suffix, fun turn there => ?_⟩
      simpa [ExtTreeMap.getElem?_erase, other] using present turn there
  · intro n q left
    rw [ExtTreeMap.getElem?_erase] at left
    have both : name ≠ n ∧ s.strategies[n]? = some q := by grind
    obtain ⟨turn, there, setting, found⟩ := described.registered n q both.2
    refine ⟨turn, there, setting, ?_⟩
    rw [read, if_neg both.1]
    exact found

/-- The turn of a setting whose strategy cannot be added goes by. -/
theorem Described.skip {name : AString} {o : CtaTemplate} {setting : Json.Value}
    (described : s.Described (name :: todo))
    (found : s.strategySetting.get? name = some (strategyConfig o setting))
    (suffix : '.' ∈ o.ktSymbol.toList) (refused : s.AddRefused o.className name o.ktSymbol) :
    s.Described todo := by
  have missing : o.className ∉ s.classes := by
    rcases refused with used | unknown | bare
    · obtain ⟨p, registered⟩ := Option.isSome_iff_exists.mp
        (ExtTreeMap.contains_eq_isSome_getElem?.symm.trans used)
      exact absurd (List.mem_cons_self ..) (described.registered name p registered).1
    · rw [← ExtTreeSet.contains_iff_mem, unknown]
      exact Bool.false_ne_true
    · exact absurd suffix bare
  refine ⟨described.object, fun n config found' => ?_, fun n p registered => ?_⟩
  · obtain ⟨o', setting', eq, suffix', present⟩ := described.entry n config found'
    refine ⟨o', setting', eq, suffix', fun turn there => ?_⟩
    by_cases same : n = name
    · subst same
      have config_eq := Option.some.inj (found'.symm.trans found)
      rw [(strategyConfig_inj (eq.symm.trans config_eq)).1] at there
      exact absurd there missing
    · exact present (by simp [same, turn]) there
  · obtain ⟨turn, there, setting'⟩ := described.registered n p registered
    exact ⟨fun mem => turn (List.mem_cons_of_mem _ mem), there, setting'⟩

/-- What an addition that is not refused leaves behind. -/
theorem addStrategy_eq (writable : s.strategySetting.writable = true)
    {className name ktSymbol : AString} (setting : Json.Value)
    (accepted : ¬s.AddRefused className name ktSymbol) :
    ∃ v, s.strategySetting.set name
        (strategyConfig { className, strategyName := name, ktSymbol } setting) = .ok v ∧
      (addStrategy className name ktSymbol setting).state s =
        ((s.register className name ktSymbol).saveSetting v).putStrategyEvent s.nextPtr := by
  rcases addStrategy_cases s className name ktSymbol setting with ⟨refused, -⟩ | ⟨-, eq⟩
  · contradiction
  have made : (s.register className name ktSymbol).objects s.nextPtr =
      { className, strategyName := name, ktSymbol } := by simp [CtaEngine.register]
  rcases saveSetting_cases (s.register className name ktSymbol) name setting s.nextPtr with
    ⟨v, saved, eq'⟩ | ⟨e, threw, -⟩
  · rw [made] at saved
    exact ⟨v, saved, eq.trans eq'⟩
  · obtain ⟨v, saved⟩ := Json.Value.exists_set writable name
      (strategyConfig { className, strategyName := name, ktSymbol } setting)
    rw [made] at threw
    exact absurd (saved.symm.trans threw) (by simp)

/-- Nothing is thrown where settings can be saved. -/
theorem exec_addStrategy (writable : s.strategySetting.writable = true)
    (className name ktSymbol : AString) (setting : Json.Value) :
    (addStrategy className name ktSymbol setting).exec s =
      (.ok ⟨⟩, (addStrategy className name ktSymbol setting).state s) := by
  refine Prod.ext ?_ rfl
  unfold addStrategy
  rw [exec_get_bind]
  split
  · rfl
  split
  · rfl
  split
  · rfl
  · have made : ∃ v, (s.register className name ktSymbol).strategySetting.set name
        (strategyConfig ((s.register className name ktSymbol).objects s.nextPtr) setting) =
          .ok v := Json.Value.exists_set writable name _
    obtain ⟨v, saved⟩ := made
    simp [updateStrategySetting, saved]

/-! ## Saving -/

/-- Whether an operation reaches `save_json`. -/
def saves (s : CtaEngine) : Op → Bool
  | .addStrategy className strategyName ktSymbol _ =>
    !s.strategies.contains strategyName && s.classes.contains className &&
      decide ('.' ∈ ktSymbol.toList) && s.strategySetting.writable
  | .editStrategy strategyName _ =>
    s.strategies.contains strategyName && s.strategySetting.writable
  | .removeStrategy strategyName =>
    match s.strategies[strategyName]? with
    | some p => !(s.objects p).trading && s.strategySetting.contains strategyName
    | none => false
  | _ => false

theorem saves_addStrategy_iff (writable : s.strategySetting.writable = true)
    (className name ktSymbol : AString) (setting : Json.Value) :
    s.saves (.addStrategy className name ktSymbol setting) = true ↔
      ¬s.AddRefused className name ktSymbol := by
  simp only [saves, AddRefused, writable]
  generalize s.strategies.contains name = used
  cases used <;> simp

/-- An operation that saves, and the state behind it. -/
inductive Saving (s : CtaEngine) : Op → CtaEngine → Prop
  | add {className name ktSymbol : AString} {setting v : Json.Value}
    (accepted : ¬s.AddRefused className name ktSymbol)
    (saved : s.strategySetting.set name
      (strategyConfig { className, strategyName := name, ktSymbol } setting) = .ok v) :
    Saving s (.addStrategy className name ktSymbol setting)
      (((s.register className name ktSymbol).saveSetting v).putStrategyEvent s.nextPtr)
  | edit {name : AString} {setting v : Json.Value} {p : Ptr}
    (registered : s.strategies[name]? = some p)
    (saved : s.strategySetting.set name (strategyConfig (s.objects p) setting) = .ok v) :
    Saving s (.editStrategy name setting) ((s.saveSetting v).putStrategyEvent p)
  | remove {name : AString} {p : Ptr} (registered : s.strategies[name]? = some p)
    (idle : (s.objects p).trading = false) (there : s.strategySetting.contains name = true) :
    Saving s (.removeStrategy name) (s.removeStrategy name)

variable (env) in
/-- An operation saves, or it leaves the settings and the strategies as they are. -/
theorem Described.step_cases (described : s.Described []) (safe : s.Safe) (op : Op) :
    (s.saves op = true ∧ s.Saving op (s.step env op)) ∨
      (s.saves op = false ∧ Still s (s.step env op)) := by
  have writable := described.writable
  cases op with
  | addStrategy className name ktSymbol setting =>
    have saved := saves_addStrategy_iff writable className name ktSymbol setting
    rw [step]
    by_cases refused : s.AddRefused className name ktSymbol
    · right
      rcases addStrategy_cases s className name ktSymbol setting with
        ⟨-, msg, eq⟩ | ⟨accepted, -⟩
      · rw [eq]
        exact ⟨by simpa [refused] using saved, still_writeLog s msg none⟩
      · exact absurd refused accepted
    · obtain ⟨v, done, eq⟩ := addStrategy_eq writable setting refused
      rw [eq]
      exact .inl ⟨saved.mpr refused, .add refused done⟩
  | editStrategy name setting =>
    rw [step, editStrategy, withStrategy]
    cases registered : s.strategies[name]? with
    | none =>
      exact .inr ⟨by simp [saves, ExtTreeMap.contains_eq_isSome_getElem?, registered], .refl s⟩
    | some p =>
      left
      rcases saveSetting_cases s name setting p with ⟨v, done, eq⟩ | ⟨e, threw, -⟩
      · simp only [eq]
        refine ⟨?_, .edit registered done⟩
        simp [saves, ExtTreeMap.contains_eq_isSome_getElem?, registered, writable]
      · obtain ⟨v, done⟩ := Json.Value.exists_set writable name _
        exact absurd (done.symm.trans threw) (by simp)
  | removeStrategy name =>
    by_cases through : ∃ p, s.strategies[name]? = some p ∧ (s.objects p).trading = false
    · obtain ⟨p, registered, idle⟩ := through
      obtain ⟨-, -, setting, found⟩ := described.registered name p registered
      have there : s.strategySetting.contains name = true := by
        simp [Json.Value.contains, found]
      exact .inl ⟨by simp [saves, registered, idle, there], .remove registered idle there⟩
    · have refused : ∀ p, s.strategies[name]? = some p → (s.objects p).trading = true := by grind
      refine .inr ⟨?_, ?_⟩
      · cases registered : s.strategies[name]? with
        | none => simp [saves, registered]
        | some p => simp [saves, registered, refused p registered]
      · rw [step]
        rcases removeStrategy_refused refused with eq | ⟨msg, eq⟩ <;> rw [eq]
        · exact .refl s
        · exact still_writeLog s msg none
  | _ => exact .inr ⟨rfl, still_step env safe rfl⟩

variable {op : Op}

theorem Saving.described (saving : s.Saving op t) (described : s.Described []) (safe : s.Safe) :
    t.Described [] := by
  cases saving with
  | add accepted saved => exact (described.register safe accepted saved).still (still_emit _ _)
  | edit registered saved => exact (described.assign registered saved).still (still_emit _ _)
  | remove registered idle there => exact described.erase registered idle

/-- The file holds the settings that have been saved. -/
theorem Saving.settingFile (saving : s.Saving op t) :
    t.settingFile = t.strategySetting.reread := by
  cases saving with
  | add accepted saved => rfl
  | edit registered saved => rfl
  | remove registered idle there =>
    rw [removeStrategy_eq registered idle, removeStrategySetting, if_pos there]
    rfl

variable (env) in
/-- The setting file is written by the operations that save, and by no others. -/
theorem Described.settingFile_step (described : s.Described []) (safe : s.Safe) (op : Op) :
    (s.step env op).settingFile =
      if s.saves op then (s.step env op).strategySetting.reread else s.settingFile := by
  rcases described.step_cases env safe op with ⟨saved, saving⟩ | ⟨unsaved, still⟩
  · rw [if_pos saved]
    exact saving.settingFile
  · rw [if_neg (by simp [unsaved])]
    exact still.file

/-! ## Loading -/

theorem exec_configMember {config m : Json.Value} {key : AString} {position : ℕ}
    (found : config.get? key = some m)
    (here : s.strategySetting.setAt position config = s.strategySetting) :
    (configMember position config key).exec s = (.ok (config, m), s) := by
  rw [configMember, Json.Value.subscript_of_get? found, exec_lift_ok_bind]
  change (Except.ok (config, m), ({ s with
    strategySetting := s.strategySetting.setAt position config } : CtaEngine)) = _
  rw [here]

/-- The members up to a position have been loaded. -/
structure Loading (classes : ExtTreeSet AString) (members : List (AString × Json.Value))
    (position : ℕ) (s : CtaEngine) : Prop where
  described : s.Described ((members.drop position).map Prod.fst)
  safe : s.Safe
  classes : s.classes = classes
  setting : s.strategySetting = .object members
  file : s.settingFile = .object members
  fresh : ∀ (name : AString) p, s.strategies[name]? = some p →
    s.objects p = { className := (s.objects p).className, strategyName := name
                    ktSymbol := (s.objects p).ktSymbol }

variable {classes : ExtTreeSet AString} {members : List (AString × Json.Value)} {position : ℕ}

/-- The entry at a position, and those behind it. -/
theorem turn_of_split {name : AString} {config : Json.Value}
    {rest : List (AString × Json.Value)} (distinct : (members.map Prod.fst).Nodup)
    (split : members.drop position = (name, config) :: rest) :
    members.drop (position + 1) = rest ∧ members.lookup name = some config ∧
      name ∉ rest.map Prod.fst := by
  have part := distinct.sublist ((List.drop_sublist position members).map Prod.fst)
  rw [split, List.map_cons] at part
  refine ⟨?_, Json.Value.lookup_of_mem distinct ?_, (List.nodup_cons.mp part).1⟩
  · rw [← List.tail_drop, split, List.tail_cons]
  · exact List.mem_of_mem_drop (by rw [split]; simp)

theorem Loading.addStrategy (loading : Loading classes members position s)
    (distinct : (members.map Prod.fst).Nodup)
    (ordered : (Json.Value.object members).reread = .object members) {name : AString}
    {o : CtaTemplate} {setting : Json.Value} {rest : List (AString × Json.Value)}
    (split : members.drop position = (name, strategyConfig o setting) :: rest)
    (suffix : '.' ∈ o.ktSymbol.toList) :
    Loading classes members (position + 1)
      ((CtaEngine.addStrategy o.className name o.ktSymbol setting).state s) := by
  obtain ⟨left, found, last⟩ := turn_of_split distinct split
  have described := loading.described
  rw [split, List.map_cons] at described
  have safe : ((CtaEngine.addStrategy o.className name o.ktSymbol setting).state s).Safe :=
    loading.safe.addStrategy _ _ _ _
  have read : s.strategySetting.get? name = some (strategyConfig o setting) := by
    rw [loading.setting]
    exact found
  by_cases refused : s.AddRefused o.className name o.ktSymbol
  · rcases addStrategy_cases s o.className name o.ktSymbol setting with
      ⟨-, msg, eq⟩ | ⟨accepted, -⟩
    · have still := still_writeLog s msg none
      rw [← eq] at still
      refine ⟨?_, safe, still.classes.trans loading.classes, still.setting.trans loading.setting,
        still.file.trans loading.file, ?_⟩
      · rw [left]
        exact (described.skip read suffix refused).still still
      · rw [eq]
        exact loading.fresh
    · exact absurd refused accepted
  · obtain ⟨v, done, eq⟩ := addStrategy_eq described.writable setting refused
    obtain rfl : .object members = v := by
      rw [loading.setting] at done
      refine Except.ok.inj (Eq.trans ?_ done)
      exact congrArg (Except.ok ∘ Json.Value.object) (Json.Value.assign_self found).symm
    have added := (described.register loading.safe refused done).still
      (still_emit _ (.strategyEvent s.nextPtr))
    have others : (name :: rest.map Prod.fst).filter (· ≠ name) = rest.map Prod.fst := by
      rw [List.filter_cons_of_neg (by simp), List.filter_eq_self]
      rintro n mem
      exact decide_eq_true fun same => last (same ▸ mem)
    rw [others] at added
    rw [eq] at safe ⊢
    refine ⟨?_, safe, loading.classes, rfl, ordered, fun n p registered => ?_⟩
    · rw [left]
      exact added
    · rcases getElem?_insert_cases registered with ⟨rfl, rfl⟩ | before
      · simp [putStrategyEvent, emit, saveSetting, CtaEngine.register]
      · have apart := (loading.safe.names n p before).2.ne
        simp only [putStrategyEvent, emit, saveSetting, CtaEngine.register,
          Function.update_of_ne apart]
        exact loading.fresh n p before

/-- An entry is read and its strategy added. -/
theorem Loading.exec_entry (loading : Loading classes members position s) {name : AString}
    {o : CtaTemplate} {setting : Json.Value} {rest : List (AString × Json.Value)}
    (split : members.drop position = (name, strategyConfig o setting) :: rest) :
    (loadStrategies position ((name, strategyConfig o setting) :: rest)).exec s =
      (loadStrategies (position + 1) rest).exec
        ((CtaEngine.addStrategy o.className name o.ktSymbol setting).state s) := by
  have there : members[position]? = some (name, strategyConfig o setting) := by
    rw [← List.head?_drop, split, List.head?_cons]
  have here : s.strategySetting.setAt position (strategyConfig o setting) =
      s.strategySetting := by
    rw [loading.setting]
    exact Json.Value.setAt_self there
  rw [loadStrategies, exec_bind_ok (exec_configMember rfl here)]
  simp only [Json.Value.string?, exec_lift_ok_bind]
  rw [exec_bind_ok (exec_configMember rfl here)]
  simp only [exec_lift_ok_bind]
  rw [exec_bind_ok (exec_configMember rfl here)]
  exact exec_bind_ok (exec_addStrategy loading.described.writable _ _ _ _)

/-- The settings are loaded to the end, whatever classes are missing. -/
theorem Loading.exec_load (loading : Loading classes members position s)
    (distinct : (members.map Prod.fst).Nodup)
    (ordered : (Json.Value.object members).reread = .object members)
    {rest : List (AString × Json.Value)} (split : members.drop position = rest) :
    ∃ t, (loadStrategies position rest).exec s = (.ok ⟨⟩, t) ∧
      Loading classes members members.length t := by
  induction rest generalizing position s with
  | nil =>
    refine ⟨s, rfl, ?_, loading.safe, loading.classes, loading.setting, loading.file,
      loading.fresh⟩
    have described := loading.described
    rw [split] at described
    rw [List.drop_length]
    exact described
  | cons x rest ih =>
    obtain ⟨name, config⟩ := x
    obtain ⟨left, there, -⟩ := turn_of_split distinct split
    have found : s.strategySetting.get? name = some config := by
      rw [loading.setting]
      exact there
    obtain ⟨o, setting, rfl, suffix, -⟩ := loading.described.entry name config found
    rw [loading.exec_entry split]
    exact ih (loading.addStrategy distinct ordered split suffix) left

end CtaEngine

/-! ## Runs -/

namespace CtaSession

/-- What happens between two restarts or at one. A restart finds the classes that can be loaded
then. -/
inductive Step where
  | op (op : CtaEngine.Op)
  | restart (classes : ExtTreeSet AString)

section Runs
variable (env : Environment)

/-- Of an engine that is restarted nothing is left but its setting file. -/
def step (s : CtaEngine) : Step → CtaEngine
  | .op op => s.step env op
  | .restart classes => (CtaEngine.loadStrategySetting s.settingFile).state { classes }

/-- A run from a first start, at which there is no setting file. -/
def run (classes : ExtTreeSet AString) (steps : List Step) : CtaEngine :=
  steps.foldl (step env) { classes }

end Runs

variable {env : Environment} {s : CtaEngine}

/-- What holds between operations: the file has the settings, and they describe the strategies. -/
structure Kept (s : CtaEngine) : Prop where
  safe : s.Safe
  described : s.Described []
  file : s.settingFile = s.strategySetting.reread

theorem Kept.step_op (kept : Kept s) (op : CtaEngine.Op) : Kept (s.step env op) := by
  have safe : (s.step env op).Safe := kept.safe.step op
  have file := kept.described.settingFile_step env kept.safe op
  rcases kept.described.step_cases env kept.safe op with ⟨saved, saving⟩ | ⟨unsaved, still⟩
  · rw [if_pos saved] at file
    exact ⟨safe, saving.described kept.described kept.safe, file⟩
  · rw [if_neg (by simp [unsaved]), kept.file, ← still.setting] at file
    exact ⟨safe, kept.described.still still, file⟩

/-- The engine behind a restart. -/
theorem Kept.restart (kept : Kept s) (classes : ExtTreeSet AString) :
    ∃ members, s.settingFile = .object members ∧ (members.map Prod.fst).Nodup ∧
      (Json.Value.object members).reread = .object members ∧
      CtaEngine.Loading classes members members.length
        ((CtaEngine.loadStrategySetting s.settingFile).state { classes }) := by
  obtain ⟨old, eq, distinct⟩ := kept.described.object
  have file : s.settingFile = .object (old.insertionSort (·.1 ≤ ·.1)) := by
    rw [kept.file, eq]
    rfl
  set members := old.insertionSort (·.1 ≤ ·.1) with members_eq
  have perm : members.Perm old := List.perm_insertionSort _ old
  have distinct' : (members.map Prod.fst).Nodup := (perm.map _).nodup_iff.mpr distinct
  have ordered : (Json.Value.object members).reread = .object members := by
    rw [← file, kept.file, Json.Value.reread_reread]
  refine ⟨members, file, distinct', ordered, ?_⟩
  have start : CtaEngine.Loading classes members 0
      { classes, strategySetting := .object members, settingFile := .object members } := by
    refine ⟨⟨⟨members, rfl, distinct'⟩, fun name config found => ?_, by simp⟩,
      ⟨by simp, by simp, by simp, by simp, by simp⟩, rfl, rfl, rfl, by simp⟩
    have mem := Json.Value.mem_of_lookup found
    have before : s.strategySetting.get? name = some config := by
      rw [eq]
      exact Json.Value.lookup_of_mem distinct (perm.mem_iff.mp mem)
    obtain ⟨o, setting, config_eq, suffix, -⟩ := kept.described.entry name config before
    refine ⟨o, setting, config_eq, suffix, fun turn => absurd ?_ turn⟩
    exact List.mem_map_of_mem mem
  obtain ⟨t, loaded, done⟩ := start.exec_load distinct' ordered List.drop_zero
  have entries : (Json.Value.object members).keys.zip (Json.Value.object members).items =
      members := by
    rw [Json.Value.keys, Json.Value.items, List.zip_map', List.map_id']
  have same : (CtaEngine.loadStrategySetting s.settingFile).state { classes } = t := by
    rw [file, Handler.state, CtaEngine.loadStrategySetting, exec_modify_bind, entries, loaded]
  rw [same]
  exact done

theorem Kept.step (kept : Kept s) (l : Step) : Kept (step env s l) := by
  cases l with
  | op op => exact kept.step_op op
  | restart classes =>
    obtain ⟨members, -, -, ordered, loaded⟩ := kept.restart classes
    have described := loaded.described
    rw [List.drop_length] at described
    refine ⟨loaded.safe, described, ?_⟩
    rw [CtaSession.step, loaded.file, loaded.setting, ordered]

theorem kept_run (env : Environment) (classes : ExtTreeSet AString) (steps : List Step) :
    Kept (run env classes steps) := by
  refine foldl_invariant (CtaSession.step env) (fun _ l kept => kept.step l) ?_
  refine ⟨CtaEngine.safe_init classes, ⟨⟨[], rfl, List.nodup_nil⟩, ?_, by simp⟩, rfl⟩
  intro name config found
  simp [Json.Value.get?] at found

/-- What a restart makes of the file: the strategies whose classes are there, with the names and
symbols of their settings and in the state in which they are made; the others keep their settings
for a later restart. -/
structure Restored (classes : ExtTreeSet AString) (s t : CtaEngine) : Prop where
  file : t.settingFile = s.settingFile
  setting : ∀ name, t.strategySetting.get? name = s.settingFile.get? name
  strategies : ∀ name o, (∃ p, t.strategies[name]? = some p ∧ t.objects p = o) ↔
    o.className ∈ classes ∧
      o = { className := o.className, strategyName := name, ktSymbol := o.ktSymbol } ∧
      ∃ setting, s.settingFile.get? name = some (CtaEngine.strategyConfig o setting)
  saved : ∀ (name : AString) p, s.strategies[name]? = some p →
    ∃ setting, s.settingFile.get? name = some (CtaEngine.strategyConfig (s.objects p) setting)

/-- Whatever has been done, and however often the program has been restarted with whatever classes:
the next restart brings back each strategy that was registered, if its class is there, and makes
no other one than the file describes. -/
theorem restart_restores (env : Environment) (first : ExtTreeSet AString) (steps : List Step)
    (classes : ExtTreeSet AString) :
    Restored classes (run env first steps)
      (step env (run env first steps) (.restart classes)) := by
  have kept := kept_run env first steps
  generalize run env first steps = s at kept ⊢
  obtain ⟨members, file, distinct, -, loaded⟩ := kept.restart classes
  rw [step]
  set t := (CtaEngine.loadStrategySetting s.settingFile).state { classes }
  have described := loaded.described
  rw [List.drop_length] at described
  have settings (name : AString) : t.strategySetting.get? name = s.settingFile.get? name := by
    rw [loaded.setting, file]
  constructor
  · rw [loaded.file, file]
  · exact settings
  · intro name o
    rw [← settings]
    constructor
    · rintro ⟨p, registered, rfl⟩
      obtain ⟨-, there, setting, found⟩ := described.registered name p registered
      rw [loaded.classes] at there
      exact ⟨there, loaded.fresh name p registered, setting, found⟩
    · rintro ⟨there, shape, setting, found⟩
      obtain ⟨o', setting', eq, -, present⟩ := described.entry name _ found
      obtain ⟨className, ktSymbol⟩ := CtaEngine.strategyConfig_inj eq
      rw [loaded.classes, ← className, ← ktSymbol] at present
      obtain ⟨p, registered, className', ktSymbol'⟩ := present (by simp) there
      refine ⟨p, registered, ?_⟩
      rw [loaded.fresh name p registered, className', ktSymbol']
      exact shape.symm
  · intro name p registered
    obtain ⟨-, -, setting, found⟩ := kept.described.registered name p registered
    obtain ⟨old, eq, distinct'⟩ := kept.described.object
    refine ⟨setting, ?_⟩
    rw [kept.file, eq, Json.Value.get?_reread distinct']
    rw [eq] at found
    exact found

/-! ## The setting that was saved last -/

/-- The strategy whose setting an operation saves. -/
def target : CtaEngine.Op → Option AString
  | .addStrategy _ strategyName _ _ | .editStrategy strategyName _
  | .removeStrategy strategyName => some strategyName
  | _ => none

/-- The setting that an operation saves, none where it removes it. -/
def written (s : CtaEngine) : CtaEngine.Op → Option Json.Value
  | .addStrategy className strategyName ktSymbol setting =>
    some (CtaEngine.strategyConfig { className, strategyName, ktSymbol } setting)
  | .editStrategy strategyName setting =>
    s.strategies[strategyName]?.map fun p => CtaEngine.strategyConfig (s.objects p) setting
  | _ => none

theorem Kept.get?_file (kept : Kept s) (name : AString) :
    s.settingFile.get? name = s.strategySetting.get? name := by
  obtain ⟨members, eq, distinct⟩ := kept.described.object
  rw [kept.file, eq, Json.Value.get?_reread distinct]
  rfl

/-- An operation that saves changes one setting. -/
theorem get?_saving {op : CtaEngine.Op} {t : CtaEngine} (saving : s.Saving op t)
    (name : AString) : t.strategySetting.get? name =
      if target op = some name then written s op else s.strategySetting.get? name := by
  cases saving with
  | add accepted saved =>
    simp [target, written, ← Json.Value.get?_set saved name, CtaEngine.saveSetting,
      CtaEngine.putStrategyEvent, CtaEngine.emit]
  | edit registered saved =>
    simp [target, written, registered, ← Json.Value.get?_set saved name, CtaEngine.saveSetting,
      CtaEngine.putStrategyEvent, CtaEngine.emit]
  | remove registered idle there =>
    rw [CtaEngine.removeStrategy_eq registered idle]
    simp only [Json.Value.get?_erase, target, written, Option.some.injEq]

variable (env) in
theorem Kept.get?_step (kept : Kept s) (op : CtaEngine.Op) (name : AString) :
    (s.step env op).settingFile.get? name =
      if s.saves op = true ∧ target op = some name then written s op
      else s.settingFile.get? name := by
  have kept' : Kept (s.step env op) := kept.step_op op
  rcases kept.described.step_cases env kept.safe op with ⟨saved, saving⟩ | ⟨unsaved, still⟩
  · rw [kept'.get?_file, kept.get?_file, get?_saving saving]
    simp only [saved, true_and]
  · rw [still.file, if_neg (by simp [unsaved])]

/-- The steps save nothing for the strategy. -/
def Quiet (env : Environment) (name : AString) (s : CtaEngine) (steps : List Step) : Prop :=
  ∀ pre op, pre ++ [.op op] <+: steps → target op = some name →
    (pre.foldl (step env) s).saves op = false

theorem Kept.get?_quiet (kept : Kept s) {name : AString} {steps : List Step}
    (quiet : Quiet env name s steps) :
    (steps.foldl (CtaSession.step env) s).settingFile.get? name = s.settingFile.get? name := by
  induction steps generalizing s with
  | nil => rfl
  | cons l steps ih =>
    rw [List.foldl_cons]
    have rest : Quiet env name (CtaSession.step env s l) steps := fun pre op before =>
      quiet (l :: pre) op (List.cons_prefix_cons.mpr ⟨rfl, before⟩)
    rw [ih (kept.step l) rest]
    cases l with
    | restart classes =>
      obtain ⟨members, file, -, -, loaded⟩ := kept.restart classes
      rw [CtaSession.step, loaded.file, file]
    | op op =>
      rw [CtaSession.step, kept.get?_step env op name, if_neg]
      rintro ⟨saved, same⟩
      have unsaved := quiet [] op (by simp) same
      simp [saved] at unsaved

/-- The setting of a strategy is the one that was saved last, whatever has happened since and
however often the program has been restarted. -/
theorem last_saved (env : Environment) (first : ExtTreeSet AString) (steps : List Step)
    {op : CtaEngine.Op} {name : AString} {later : List Step} (named : target op = some name)
    (saved : (run env first steps).saves op = true)
    (quiet : Quiet env name (run env first (steps ++ [.op op])) later) :
    (run env first (steps ++ .op op :: later)).settingFile.get? name =
      written (run env first steps) op := by
  have kept := kept_run env first steps
  have kept' := kept_run env first (steps ++ [.op op])
  have split : run env first (steps ++ .op op :: later) =
      later.foldl (step env) (run env first (steps ++ [.op op])) := by
    rw [← List.singleton_append, ← List.append_assoc, run, List.foldl_append]
    rfl
  rw [split, kept'.get?_quiet quiet]
  have last : run env first (steps ++ [.op op]) = (run env first steps).step env op := by
    rw [run, List.foldl_append]
    rfl
  rw [last, kept.get?_step env op name, if_pos ⟨saved, named⟩]

/-- A strategy is added, and its class is missing at the first of two restarts. -/
theorem last_saved_classMissing :
    (run CtaEngine.buyOnTick {"Dual"}
      [.op (.addStrategy "Dual" "alpha" "rb2410.SHFE" (.object [])), .restart ∅,
        .restart {"Dual"}]).settingFile.get? "alpha" =
      some (CtaEngine.strategyConfig
        { className := "Dual", strategyName := "alpha", ktSymbol := "rb2410.SHFE" }
        (.object [])) := by
  refine last_saved CtaEngine.buyOnTick {"Dual"} [] rfl (by decide +kernel) fun pre op before => ?_
  have mem := before.subset (List.mem_append_right pre (List.mem_singleton_self _))
  simp at mem

end CtaSession

end KeenTrader.App
