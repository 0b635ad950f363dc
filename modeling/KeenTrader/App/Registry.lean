import KeenTrader.App.Changes
import KeenTrader.App.Stopping

/-!
# The registry of strategies

A strategy is kept in three maps: under its name with its object, under its symbol for the ticks,
and under its name with its setting. The lifecycle operations keep the three in step as long as
the setting file holds an object. A file that holds something else loads without complaint, and
then a strategy is registered before its setting cannot be saved.
-/

namespace KeenTrader.App

open Std (ExtTreeMap ExtTreeSet)
open Containers Handlers Runs KeenTrader.Engine

namespace CtaEngine

/-- The strategies whose ticks are those of the symbol. -/
def listed (s : CtaEngine) (ktSymbol : AString) : List Ptr := s.symbolStrategyMap.getD ktSymbol []

/-- Settings can be saved, and each strategy has one; it is listed once under its own symbol and
under no other; and what is listed is registered. -/
structure Catalogued (s : CtaEngine) : Prop where
  writable : s.strategySetting.writable = true
  setting : ∀ (name : AString) p, s.strategies[name]? = some p →
    (s.strategySetting.get? name).isSome = true
  placed : ∀ (name : AString) p, s.strategies[name]? = some p →
    ∀ ktSymbol, (s.listed ktSymbol).count p = if (s.objects p).ktSymbol = ktSymbol then 1 else 0
  listed : ∀ ktSymbol, ∀ p ∈ s.listed ktSymbol, s.Registered p

variable {env : Environment} {hears : Ptr → Prop} {s t : CtaEngine}

theorem Catalogued.of_same (catalogued : s.Catalogued)
    (setting : t.strategySetting = s.strategySetting)
    (strategies : t.strategies = s.strategies)
    (symbols : t.symbolStrategyMap = s.symbolStrategyMap)
    (ktSymbol : ∀ p, (t.objects p).ktSymbol = (s.objects p).ktSymbol) : t.Catalogued := by
  have same : ∀ ktSymbol, t.listed ktSymbol = s.listed ktSymbol := fun ktSymbol => by
    rw [CtaEngine.listed, symbols, CtaEngine.listed]
  constructor
  · rw [setting]
    exact catalogued.writable
  · rw [setting, strategies]
    exact catalogued.setting
  · intro name p registered k
    rw [strategies] at registered
    rw [same, ktSymbol]
    exact catalogued.placed name p registered k
  · intro k p mem
    rw [same] at mem
    rw [Registered, strategies]
    exact catalogued.listed k p mem

theorem Action.strategySetting (action : Action env s t) :
    t.strategySetting = s.strategySetting := by
  cases action with
  | send p req exchangeName trading =>
    rcases sendRequest_cases env s p req exchangeName with ⟨-, eq⟩ | ⟨orderid, -, eq⟩
    · rw [eq]
      rfl
    · rw [eq]
  | _ => rfl

/-- Saving a setting that can be saved keeps the others. -/
theorem Catalogued.saved {name : AString} {v : Json.Value} (catalogued : s.Catalogued)
    (saved : Saved s name v) : v.writable = true ∧ (v.get? name).isSome = true ∧
      ∀ other, (s.strategySetting.get? other).isSome = true → (v.get? other).isSome = true := by
  obtain ⟨config, done | ⟨⟨e, threw⟩, -⟩⟩ := saved
  · have read := fun k => Json.Value.get?_set done k
    refine ⟨Json.Value.writable_set done, by simp [read], fun other had => ?_⟩
    rw [read]
    split
    · rfl
    · exact had
  · obtain ⟨w, done⟩ := Json.Value.exists_set catalogued.writable name config
    simp [done] at threw

theorem Catalogued.register (catalogued : s.Catalogued) (loose : s.Loose) (className : AString)
    {name : AString} (ktSymbol : AString) {v : Json.Value}
    (file : Json.Value) (unused : ¬s.strategies.contains name = true) (saved : Saved s name v) :
    ({ s.register className name ktSymbol with
      strategySetting := v, settingFile := file } : CtaEngine).Catalogued := by
  obtain ⟨writable, new, kept⟩ := catalogued.saved saved
  have list : ∀ k, ({ s.register className name ktSymbol with
      strategySetting := v, settingFile := file } : CtaEngine).listed k =
        if ktSymbol = k then s.listed ktSymbol ++ [s.nextPtr] else s.listed k := by
    intro k
    by_cases same : ktSymbol = k
    · subst same
      simp [CtaEngine.listed, CtaEngine.register]
    · simp [CtaEngine.listed, CtaEngine.register, ExtTreeMap.getD_insert, same]
  have fresh : ∀ k, s.nextPtr ∉ s.listed k := by
    intro k mem
    obtain ⟨n, registered⟩ := catalogued.listed k _ mem
    exact (loose.names n _ registered).2.ne rfl
  have free : ∀ (n : AString) p, s.strategies[n]? = some p → name ≠ n := by
    rintro n p registered rfl
    simp [ExtTreeMap.mem_iff_isSome_getElem?, registered] at unused
  constructor
  · exact writable
  · intro n p registered
    rcases getElem?_insert_cases registered with ⟨-, rfl⟩ | old
    · exact new
    · exact kept n (catalogued.setting n p old)
  · intro n p registered k
    rw [list]
    rcases getElem?_insert_cases registered with ⟨rfl, -⟩ | old
    · by_cases same : ktSymbol = k
      · subst same
        simp [CtaEngine.register, List.count_eq_zero.mpr (fresh ktSymbol)]
      · simp [CtaEngine.register, same, List.count_eq_zero.mpr (fresh k)]
    · have other : p ≠ s.nextPtr := (loose.names n p old).2.ne
      have placed := catalogued.placed n p old k
      by_cases same : ktSymbol = k
      · subst same
        simpa [CtaEngine.register, other, Ne.symm other] using placed
      · simpa [CtaEngine.register, other, same] using placed
  · intro k p mem
    have known : ∀ q, s.Registered q → ({ s.register className name ktSymbol with
        strategySetting := v, settingFile := file } : CtaEngine).Registered q := by
      rintro q ⟨n, registered⟩
      exact ⟨n, by simpa [CtaEngine.register, ExtTreeMap.getElem?_insert, free n q registered]
        using registered⟩
    rw [list] at mem
    by_cases same : ktSymbol = k
    · rw [if_pos same] at mem
      rcases List.mem_append.mp mem with old | last
      · exact known p (catalogued.listed _ p old)
      · obtain rfl := List.mem_singleton.mp last
        exact ⟨name, by simp [CtaEngine.register]⟩
    · rw [if_neg same] at mem
      exact known p (catalogued.listed k p mem)

theorem Catalogued.removeStrategy (catalogued : s.Catalogued) (safe : s.Safe) (name : AString) :
    (s.removeStrategy name).Catalogued := by
  by_cases through : ∃ p, s.strategies[name]? = some p ∧ (s.objects p).trading = false
  · obtain ⟨p, registered, idle⟩ := through
    rw [removeStrategy_eq registered idle]
    set ktSymbol := (s.objects p).ktSymbol
    have other : ∀ (n : AString) q, (s.strategies.erase name)[n]? = some q →
        name ≠ n ∧ s.strategies[n]? = some q ∧ q ≠ p := by
      intro n q left
      rw [ExtTreeMap.getElem?_erase] at left
      have both : name ≠ n ∧ s.strategies[n]? = some q := by grind
      refine ⟨both.1, both.2, ?_⟩
      rintro rfl
      exact both.1 ((safe.names name q registered).1.symm.trans (safe.names n q both.2).1)
    constructor
    · exact (Json.Value.writable_erase _ _).trans catalogued.writable
    · intro n q left
      obtain ⟨different, old, -⟩ := other n q left
      rw [Json.Value.get?_erase, if_neg different]
      exact catalogued.setting n q old
    · intro n q left k
      obtain ⟨-, old, different⟩ := other n q left
      have placed := catalogued.placed n q old k
      by_cases same : ktSymbol = k
      · subst same
        simpa [CtaEngine.listed, List.count_filter, different] using placed
      · simpa [CtaEngine.listed, ExtTreeMap.getD_insert, same] using placed
    · intro k q mem
      have kept : q ∈ s.listed k ∧ q ≠ p := by
        by_cases same : ktSymbol = k
        · subst same
          simpa [CtaEngine.listed] using mem
        · have old : q ∈ s.listed k := by
            simpa [CtaEngine.listed, ExtTreeMap.getD_insert, same] using mem
          refine ⟨old, ?_⟩
          rintro rfl
          have placed := catalogued.placed name q registered k
          rw [if_neg same, List.count_eq_zero] at placed
          exact placed old
      obtain ⟨n, old⟩ := catalogued.listed k q kept.1
      refine ⟨n, ?_⟩
      have different : ¬name = n := by
        rintro rfl
        exact kept.2 (Option.some.inj (old.symm.trans registered))
      simpa [ExtTreeMap.getElem?_erase, different] using old
  · have refused : ∀ p, s.strategies[name]? = some p → (s.objects p).trading = true := by
      grind
    rcases removeStrategy_refused refused with eq | ⟨msg, eq⟩
    · rw [eq]
      exact catalogued
    · rw [eq]
      exact catalogued.of_same rfl rfl rfl fun _ => rfl

theorem Change.catalogued (change : Change env hears s t) (loose : s.Loose)
    (catalogued : s.Catalogued) : t.Catalogued := by
  cases change with
  | move move =>
    have acts := move.acts
    have setting := acts.invariant (P := fun u => u.strategySetting = s.strategySetting)
      (fun action same => action.strategySetting.trans same) rfl
    exact catalogued.of_same setting acts.frame.strategies acts.frame.symbolStrategyMap
      fun p => by rw [acts.frame.objects]
  | pos p pos heard =>
    exact catalogued.of_same rfl rfl rfl (updateObject_keeps (·.ktSymbol) s rfl)
  | flags name p inited trading registered =>
    exact catalogued.of_same rfl rfl rfl (updateObject_keeps (·.ktSymbol) s rfl)
  | setting name v file saved =>
    obtain ⟨writable, -, kept⟩ := catalogued.saved saved
    exact ⟨writable, fun n p registered => kept n (catalogued.setting n p registered),
      catalogued.placed, catalogued.listed⟩
  | register className name ktSymbol v file unused saved =>
    exact catalogued.register loose className ktSymbol file unused saved
  | _ => exact catalogued.of_same rfl rfl rfl fun _ => rfl

theorem Catalogued.step (catalogued : s.Catalogued) (safe : s.Safe) (op : Op) :
    (s.step env op).Catalogued := by
  by_cases removal : ∃ name, op = .removeStrategy name
  · obtain ⟨name, rfl⟩ := removal
    exact catalogued.removeStrategy safe name
  · exact (changes_step env safe op fun name same => removal ⟨name, same⟩).invariant safe.loose
      (fun change => change.catalogued) catalogued

/-! ## Loading -/

/-- What holds between operations. -/
def Sound (s : CtaEngine) : Prop := s.Safe ∧ s.Catalogued

theorem sound_addStrategy (className name ktSymbol : AString) (setting : Json.Value) :
    Preserves Sound (addStrategy className name ktSymbol setting) := by
  rintro s ⟨safe, catalogued⟩
  refine ⟨safe.addStrategy _ _ _ _, ?_⟩
  rcases addStrategy_registers s className name ktSymbol setting with
    ⟨msg, eq⟩ | ⟨v, file, unused, saved, eq⟩
  · rw [eq]
    exact catalogued.of_same rfl rfl rfl fun _ => rfl
  · have added := catalogued.register safe.loose className ktSymbol file unused saved
    rcases eq with eq | eq <;> rw [eq]
    · exact added.of_same rfl rfl rfl fun _ => rfl
    · exact added

theorem sound_configMember (position : ℕ) (config : Json.Value) (key : AString) :
    Preserves Sound (configMember position config key) := by
  refine .bind (.lift _) fun read => .bind (.modify ?_) fun _ => .pure _
  rintro s ⟨safe, catalogued⟩
  refine ⟨⟨safe.stops, safe.names, safe.traders, safe.mapped, safe.sends⟩, ?_⟩
  constructor
  · rw [Json.Value.writable_setAt]
    exact catalogued.writable
  · intro name p registered
    rw [Json.Value.isSome_get?_setAt]
    exact catalogued.setting name p registered
  · exact catalogued.placed
  · exact catalogued.listed

/-- Loading stops where something throws, and what it has loaded by then is sound. -/
theorem sound_loadStrategies (position : ℕ) (entries : List (AString × Json.Value)) :
    Preserves Sound (loadStrategies position entries) := by
  induction entries generalizing position with
  | nil => exact .pure _
  | cons entry entries ih =>
    obtain ⟨strategyName, config⟩ := entry
    exact .bind (sound_configMember _ _ _) fun _ => .bind (.lift _) fun _ =>
      .bind (sound_configMember _ _ _) fun _ => .bind (.lift _) fun _ =>
        .bind (sound_configMember _ _ _) fun _ =>
          .bind (sound_addStrategy _ _ _ _) fun _ => ih _

theorem sound_load (classes : ExtTreeSet AString) {file : Json.Value}
    (writable : file.writable = true) :
    Sound ((loadStrategySetting file).state { classes }) := by
  have empty : Sound { classes, strategySetting := file, settingFile := file } :=
    ⟨⟨by simp, by simp, by simp, by simp, by simp⟩, writable, by simp, by simp,
      by simp [CtaEngine.listed]⟩
  exact sound_loadStrategies 0 (file.keys.zip file.items) _ empty

/-! ## Runs -/

/-- The three maps of strategies. -/
def sameMaps (s t : CtaEngine) : Prop :=
  t.strategies = s.strategies ∧ t.symbolStrategyMap = s.symbolStrategyMap ∧
    t.strategySetting = s.strategySetting

/-- The three maps are in step, also after an operation that is refused. -/
structure InStep (env : Environment) (s : CtaEngine) : Prop where
  object : ∀ (name : AString) p, s.strategies[name]? = some p →
    p < s.nextPtr ∧ (s.objects p).strategyName = name
  setting : ∀ (name : AString) p, s.strategies[name]? = some p →
    s.strategySetting.contains name = true
  placed : ∀ (name : AString) p, s.strategies[name]? = some p →
    ∀ ktSymbol, (s.listed ktSymbol).count p = if (s.objects p).ktSymbol = ktSymbol then 1 else 0
  listed : ∀ ktSymbol, ∀ p ∈ s.listed ktSymbol, s.Registered p
  stopOrders : ∀ (id : AString) so, s.stopOrders[id]? = some so →
    ∃ p, s.strategies[so.strategyName]? = some p
  addRefused : ∀ className name ktSymbol setting, s.AddRefused className name ktSymbol →
    s.sameMaps (s.step env (.addStrategy className name ktSymbol setting))
  removeRefused : ∀ name, (∀ p, s.strategies[name]? = some p → (s.objects p).trading = true) →
    s.sameMaps (s.step env (.removeStrategy name))

theorem Sound.inStep (sound : s.Sound) : s.InStep env := by
  obtain ⟨safe, catalogued⟩ := sound
  constructor
  · intro name p registered
    exact (safe.names name p registered).symm
  · exact catalogued.setting
  · exact catalogued.placed
  · exact catalogued.listed
  · intro id so stored
    obtain ⟨-, -, -, p, registered, -⟩ := safe.stops id so stored
    exact ⟨p, registered⟩
  · intro className name ktSymbol setting refused
    rcases addStrategy_cases s className name ktSymbol setting with ⟨-, msg, eq⟩ | ⟨fresh, -⟩
    · simp only [CtaEngine.step, eq]
      exact ⟨rfl, rfl, rfl⟩
    · exact absurd refused fresh
  · intro name refused
    rcases removeStrategy_refused refused with eq | ⟨msg, eq⟩ <;>
      · simp only [CtaEngine.step, eq]
        exact ⟨rfl, rfl, rfl⟩

/-- Whatever is loaded from a setting file that holds an object or nothing, and whatever is done
then: each registered strategy has an object of its name and an entry in the settings, and is
listed once under its own symbol and nowhere else; what is listed is registered; no stop order
names a strategy that is not; and an addition or a removal that is refused changes none of it. -/
theorem registry_in_step (env : Environment) (classes : ExtTreeSet AString) {file : Json.Value}
    (writable : file.writable = true) (ops : List Op) :
    (ops.foldl (step env) ((loadStrategySetting file).state { classes })).InStep env := by
  refine Sound.inStep (foldl_invariant (step env) ?_ (sound_load classes writable))
  exact fun s op sound => ⟨sound.1.step op, sound.2.step sound.1 op⟩

/-- A setting file with one strategy. -/
def oneStrategy : Json.Value :=
  .object [("alpha", .object [("class_name", .string "Dual"), ("kt_symbol", .string "rb2410.SHFE"),
    ("setting", .object [])])]

/-- The strategy is loaded, started, and cannot be removed then. -/
theorem oneStrategy_in_step :
    ((loadStrategySetting oneStrategy).state { classes := {"Dual"} }).strategies["alpha"]? =
      some 0 ∧
    ([Op.initStrategy "alpha", .startStrategy "alpha", .removeStrategy "alpha"].foldl
      (step buyOnTick) ((loadStrategySetting oneStrategy).state { classes := {"Dual"} })).InStep
        buyOnTick :=
  ⟨by decide +kernel, registry_in_step buyOnTick {"Dual"} rfl _⟩

/-- A setting file with a list in it: a strategy that is added is registered, and its setting is
lost. -/
theorem list_not_in_step :
    ¬ ∀ (env : Environment) (classes : ExtTreeSet AString) (file : Json.Value) (ops : List Op),
      (ops.foldl (step env) ((loadStrategySetting file).state { classes })).InStep env := by
  intro all
  have setting := (all buyOnTick {"Dual"} (.array [])
    [.addStrategy "Dual" "alpha" "rb2410.SHFE" .null]).setting "alpha" 0 (by decide +kernel)
  exact absurd setting (by decide +kernel)

end CtaEngine

end KeenTrader.App
