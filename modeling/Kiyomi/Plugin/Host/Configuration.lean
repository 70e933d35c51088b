import Kiyomi.Foundation.Run
import Kiyomi.Plugin.Host.System

namespace Kiyomi.Plugin.Host

open Go

/-! # The configuration of the plugins

The manager keeps one configuration for all plugins, which it hands to every instance that
it starts. -/

structure GlobalHttpConfig where
  proxyURL : String
  userAgent : String
  timeoutSeconds : Int
  dnsResolvers : List String

/-- `sdk.PluginConfig`. A map is what it has under a key; a map that is nil has nothing. -/
structure PluginConfig where
  globalConfig : String → Option String
  providerConfigs : String → Option (String → Option String)
  httpConfig : GlobalHttpConfig

/-- `stored[k] = v` for every entry. -/
def mergeValues (stored : String → Option String) (values : Map String String) :
    String → Option String :=
  values.entries.foldl (fun stored entry => Function.update stored entry.1 (some entry.2)) stored

/-- The values of a provider that has none yet go into a new map. -/
def mergeProviders (stored : String → Option (String → Option String))
    (providerConfigs : Map String (Map String String)) :
    String → Option (String → Option String) :=
  providerConfigs.entries.foldl
    (fun stored entry => Function.update stored entry.1
      (some (mergeValues ((stored entry.1).getD fun _ => none) entry.2)))
    stored

def PluginConfig.merge (config : PluginConfig) (globalConfig : Map String String)
    (providerConfigs : Map String (Map String String)) : PluginConfig where
  globalConfig := mergeValues config.globalConfig globalConfig
  providerConfigs := mergeProviders config.providerConfigs providerConfigs
  httpConfig := config.httpConfig

/-- The manager with the settings of its options. -/
structure Configured where
  system : System
  config : PluginConfig

inductive UpdateError
  | notFound (pluginID : String)
  /-- The plugin rejects the configuration. -/
  | reinit (pluginID : String)

namespace Configured

/-- `UpdatePluginConfig`, with what it returns. `accepts` is the answer of the plugin's
`Init`; an instance without a plugin service takes everything. -/
def updatePluginConfig (s : Configured) (pluginID : String) (globalConfig : Map String String)
    (providerConfigs : Map String (Map String String)) (accepts : PluginConfig → Bool) :
    Configured × Option UpdateError :=
  match s.system.manager.instances.lookup pluginID with
  | none => (s, some (.notFound pluginID))
  | some _ =>
      let config := s.config.merge globalConfig providerConfigs
      let s := { s with config }
      if accepts config then (s, none) else (s, some (.reinit pluginID))

/-- `GetPluginConfig`. The adapters of an instance stand under the ids of its providers. -/
def getPluginConfig (s : Configured) (pluginID : String) :
    (String → Option String) × (String → Option (String → Option String)) :=
  (s.config.globalConfig, fun id =>
    match s.system.manager.instances.lookup pluginID with
    | none => none
    | some inst => if id ∈ inst.adapters then s.config.providerConfigs id else none)

/-- What `startInstance` passes to `Init`. -/
def initConfig (s : Configured) : PluginConfig := s.config

inductive Action
  /-- A step of `Start`, `Stop`, `Reload` or a call. -/
  | host (action : System.Action)
  | update (pluginID : String) (globalConfig : Map String String)
      (providerConfigs : Map String (Map String String)) (accepts : PluginConfig → Bool)

def step : StepFunction Configured Action
  | s, .host action => (System.step s.system action).map fun system => { s with system }
  | s, .update pluginID globalConfig providerConfigs accepts =>
      some (s.updatePluginConfig pluginID globalConfig providerConfigs accepts).1

/-- A later look at the manager, after any steps, shows no difference between two states. -/
structure SameLater (s s' : Configured) : Prop where
  reports : ∀ pluginID, s'.getPluginConfig pluginID = s.getPluginConfig pluginID
  later : ∀ actions last', Run step (fun _ _ => True) s' actions last' →
    ∃ last, Run step (fun _ _ => True) s actions last ∧ last'.initConfig = last.initConfig ∧
      ∀ pluginID, last'.getPluginConfig pluginID = last.getPluginConfig pluginID

end Configured

/-- The values are there already, and so are the providers. -/
def PluginConfig.Has (config : PluginConfig) (globalConfig : Map String String)
    (providerConfigs : Map String (Map String String)) : Prop :=
  (∀ k v, globalConfig.lookup k = some v → config.globalConfig k = some v) ∧
  ∀ id values, providerConfigs.lookup id = some values →
    ∃ own, config.providerConfigs id = some own ∧
      ∀ k v, values.lookup k = some v → own k = some v

/-! ## Merging -/

/-- What a loop over the entries of a map leaves under a key. -/
theorem foldl_update {V W : Type} (change : Option W → V → Option W)
    {entries : List (Sigma fun _ : String => V)} (distinct : entries.NodupKeys)
    (stored : String → Option W) (k : String) :
    entries.foldl
      (fun stored entry => Function.update stored entry.1 (change (stored entry.1) entry.2))
      stored k = (entries.dlookup k).elim (stored k) (change (stored k)) := by
  induction entries generalizing stored with
  | nil => rfl
  | cons entry entries induction =>
      rcases entry with ⟨key, value⟩
      rw [List.nodupKeys_cons] at distinct
      rw [List.foldl_cons, induction distinct.2]
      by_cases same : k = key
      · subst same
        rw [List.dlookup_eq_none.mpr distinct.1, List.dlookup_cons_eq]
        exact Function.update_self ..
      · rw [List.dlookup_cons_ne _ _ same, Function.update_of_ne same]

theorem mergeValues_apply (stored : String → Option String) (values : Map String String)
    (k : String) : mergeValues stored values k = (values.lookup k).elim (stored k) some :=
  foldl_update (fun _ => some) values.nodupKeys stored k

theorem mergeProviders_apply (stored : String → Option (String → Option String))
    (providerConfigs : Map String (Map String String)) (id : String) :
    mergeProviders stored providerConfigs id = (providerConfigs.lookup id).elim (stored id)
      fun values => some (mergeValues ((stored id).getD fun _ => none) values) :=
  foldl_update (fun own values => some (mergeValues (own.getD fun _ => none) values))
    providerConfigs.nodupKeys stored id

theorem mergeValues_eq_iff {stored : String → Option String} {values : Map String String} :
    mergeValues stored values = stored ↔ ∀ k v, values.lookup k = some v → stored k = some v := by
  constructor
  · intro same k v isNew
    rw [← same, mergeValues_apply, isNew]
    rfl
  · intro has
    funext k
    rw [mergeValues_apply]
    cases isNew : values.lookup k with
    | none => rfl
    | some v => exact (has k v isNew).symm

theorem mergeProviders_eq_iff {stored : String → Option (String → Option String)}
    {providerConfigs : Map String (Map String String)} :
    mergeProviders stored providerConfigs = stored ↔
      ∀ id values, providerConfigs.lookup id = some values →
        ∃ own, stored id = some own ∧ ∀ k v, values.lookup k = some v → own k = some v := by
  constructor
  · intro same id values isNew
    have merged := congrFun same id
    rw [mergeProviders_apply, isNew, Option.elim_some] at merged
    cases isStored : stored id with
    | none =>
        rw [isStored] at merged
        contradiction
    | some own =>
        rw [isStored, Option.some_inj, Option.getD_some, mergeValues_eq_iff] at merged
        exact ⟨own, rfl, merged⟩
  · intro has
    funext id
    rw [mergeProviders_apply]
    cases isNew : providerConfigs.lookup id with
    | none => rfl
    | some values =>
        rcases has id values isNew with ⟨own, isStored, stays⟩
        rw [isStored, Option.elim_some, Option.getD_some, mergeValues_eq_iff.mpr stays]

theorem PluginConfig.merge_eq_iff {config : PluginConfig} {globalConfig : Map String String}
    {providerConfigs : Map String (Map String String)} :
    config.merge globalConfig providerConfigs = config ↔
      config.Has globalConfig providerConfigs := by
  rw [Has, ← mergeValues_eq_iff, ← mergeProviders_eq_iff, merge]
  cases config
  simp only [mk.injEq, and_true]

/-! ## A failed update -/

namespace Configured

variable {s : Configured}

theorem SameLater.refl (s : Configured) : SameLater s s :=
  ⟨fun _ => rfl, fun _ last' run => ⟨last', run, rfl, fun _ => rfl⟩⟩

/-- A failed update leaves no trace exactly if the plugin is not tracked, or the values were
there before. -/
theorem updatePluginConfig_atomic_iff (s : Configured) (pluginID : String)
    (globalConfig : Map String String) (providerConfigs : Map String (Map String String))
    (accepts : PluginConfig → Bool) :
    ((s.updatePluginConfig pluginID globalConfig providerConfigs accepts).2 ≠ none →
      SameLater s (s.updatePluginConfig pluginID globalConfig providerConfigs accepts).1) ↔
    (s.system.manager.instances.lookup pluginID = none ∨
      accepts (s.config.merge globalConfig providerConfigs) = true ∨
      s.config.Has globalConfig providerConfigs) := by
  unfold updatePluginConfig
  cases tracked : s.system.manager.instances.lookup pluginID with
  | none => exact iff_of_true (fun _ => .refl s) (.inl rfl)
  | some inst =>
      cases answer : accepts (s.config.merge globalConfig providerConfigs) with
      | true =>
          refine iff_of_true (fun failed => ?_) (.inr (.inl rfl))
          simp [answer] at failed
      | false =>
          simp only [answer, Bool.false_eq_true, if_false, reduceCtorEq, false_or, ne_eq,
            not_false_eq_true, forall_const]
          rw [← PluginConfig.merge_eq_iff]
          constructor
          · intro same
            rcases same.later [] _ (.nil _) with ⟨last, run, sameConfig, _⟩
            cases run
            exact sameConfig
          · intro same
            rw [same]
            exact .refl s

/-- One plugin that is running, and no settings. -/
def running : Configured where
  system := { System.initial with
    manager := (PluginManager.new.startInstalled "/plugins/a"
      (newInstance 0 "/plugins/a" ⟨"plugin-a", "1.0.0", ["mangadex"]⟩)).1 }
  config := ⟨fun _ => none, fun _ => none, ⟨"", "", 0, []⟩⟩

/-- The plugin rejects a token, which is reported and handed to the next start. -/
theorem rejected_token_stays :
    (running.updatePluginConfig "plugin-a" (AList.singleton "token" "bad") ∅
      fun _ => false).2.isSome = true ∧
    (running.getPluginConfig "plugin-a").1 "token" = none ∧
    ((running.updatePluginConfig "plugin-a" (AList.singleton "token" "bad") ∅
      fun _ => false).1.getPluginConfig "plugin-a").1 "token" = some "bad" ∧
    running.initConfig.globalConfig "token" = none ∧
    (running.updatePluginConfig "plugin-a" (AList.singleton "token" "bad") ∅
      fun _ => false).1.initConfig.globalConfig "token" = some "bad" := by
  refine ⟨?_, ?_, ?_, ?_, ?_⟩ <;> decide +kernel

end Configured

end Kiyomi.Plugin.Host
