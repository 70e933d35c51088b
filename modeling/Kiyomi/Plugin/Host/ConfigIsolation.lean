import Kiyomi.Plugin.Host.Configuration

namespace Kiyomi.Plugin.Host

open Go

/-! # What a plugin sees of the settings of another

Two runs of one manager differ only in the updates that they make for one plugin. They are
taken together as one run of a pair. -/

namespace Configured

/-- The configuration that a step passes to the `Init` of a plugin. A start that fails may
have got as far as that, whatever plugin it was. -/
def initialized (s : Configured) (pluginID : String) : Action → Option PluginConfig
  | .host (.advance position (.launch desc)) =>
      if (System.step s.system (.advance position (.launch desc))).isSome &&
          desc.all (fun desc => desc.pluginID = pluginID) then
        some s.initConfig
      else none
  | .host _ => none
  | .update id globalConfig providerConfigs _ =>
      if id = pluginID then
        (s.system.manager.instances.lookup id).map fun _ =>
          s.config.merge globalConfig providerConfigs
      else none

/-- A later look, after steps that both managers take, shows no difference for a plugin:
what is reported for it, and what its next `Init` gets. -/
def SameFor (pluginID : String) (s t : Configured) : Prop :=
  ∀ actions s' t', Run step (fun _ _ => True) s actions s' →
    Run step (fun _ _ => True) t actions t' →
    s'.getPluginConfig pluginID = t'.getPluginConfig pluginID ∧
      ∀ action, s'.initialized pluginID action = t'.initialized pluginID action

/-- One step of both runs, or an update that only one of them makes. -/
inductive Move
  | both (action : Action)
  | first (globalConfig : Map String String) (providerConfigs : Map String (Map String String))
      (accepts : PluginConfig → Bool)
  | second (globalConfig : Map String String) (providerConfigs : Map String (Map String String))
      (accepts : PluginConfig → Bool)

/-- The action of the first run, where the single updates are for the plugin. -/
def Move.inFirst (pluginID : String) : Move → Option Action
  | .both action => some action
  | .first globalConfig providerConfigs accepts =>
      some (.update pluginID globalConfig providerConfigs accepts)
  | .second _ _ _ => none

def Move.inSecond (pluginID : String) : Move → Option Action
  | .both action => some action
  | .first _ _ _ => none
  | .second globalConfig providerConfigs accepts =>
      some (.update pluginID globalConfig providerConfigs accepts)

/-- The step of a pair. -/
def pairStep (pluginID : String) : StepFunction (Configured × Configured) Move
  | (s, t), .both action => (step s action).bind fun s' => (step t action).map fun t' => (s', t')
  | (s, t), .first globalConfig providerConfigs accepts =>
      some ((s.updatePluginConfig pluginID globalConfig providerConfigs accepts).1, t)
  | (s, t), .second globalConfig providerConfigs accepts =>
      some (s, (t.updatePluginConfig pluginID globalConfig providerConfigs accepts).1)

/-- The plugin is not tracked, or the settings were there before. -/
def AddsNothing (s : Configured) (pluginID : String) (globalConfig : Map String String)
    (providerConfigs : Map String (Map String String)) : Prop :=
  s.system.manager.instances.lookup pluginID = none ∨ s.config.Has globalConfig providerConfigs

/-- An update that only one of the runs makes adds nothing there. -/
def AddNothing (pluginID : String) (pair : Configured × Configured) : Move → Prop
  | .both _ => True
  | .first globalConfig providerConfigs _ =>
      pair.1.AddsNothing pluginID globalConfig providerConfigs
  | .second globalConfig providerConfigs _ =>
      pair.2.AddsNothing pluginID globalConfig providerConfigs

/-- The settings of an update for a plugin are for it and for its providers. -/
def OwnSettings (s : Configured) (pluginID : String)
    (providerConfigs : Map String (Map String String)) : Prop :=
  ∀ inst, s.system.manager.instances.lookup pluginID = some inst →
    ∀ id ∈ providerConfigs, id ∈ inst.adapters

def SetOwn (pluginID : String) (pair : Configured × Configured) : Move → Prop
  | .both _ => True
  | .first _ providerConfigs _ => pair.1.OwnSettings pluginID providerConfigs
  | .second _ providerConfigs _ => pair.2.OwnSettings pluginID providerConfigs

variable {s t s' t' : Configured} {pluginID : String} {globalConfig : Map String String}
  {providerConfigs : Map String (Map String String)} {accepts : PluginConfig → Bool}

/-! ## Two runs as one -/

theorem pairRun_iff {moves : List Move} :
    Run (pairStep pluginID) (fun _ _ => True) (s, t) moves (s', t') ↔
      Run step (fun _ _ => True) s (moves.filterMap (Move.inFirst pluginID)) s' ∧
        Run step (fun _ _ => True) t (moves.filterMap (Move.inSecond pluginID)) t' := by
  induction moves generalizing s t with
  | nil =>
      constructor
      · intro run
        cases run
        exact ⟨.nil _, .nil _⟩
      · rintro ⟨run, run'⟩
        cases run
        cases run'
        exact .nil _
  | cons move moves induction =>
      cases move with
      | both action =>
          constructor
          · intro run
            cases run with
            | cons _ taken rest =>
                rcases Option.bind_eq_some_iff.mp taken with ⟨s₁, first, mapped⟩
                rcases Option.map_eq_some_iff.mp mapped with ⟨t₁, second, rfl⟩
                rcases induction.mp rest with ⟨run, run'⟩
                exact ⟨.cons trivial first run, .cons trivial second run'⟩
          · rintro ⟨run, run'⟩
            cases run with
            | cons _ first rest =>
                cases run' with
                | cons _ second rest' =>
                    refine .cons trivial ?_ (induction.mpr ⟨rest, rest'⟩)
                    simp only [pairStep, first, second, Option.bind_some, Option.map_some]
      | first globalConfig providerConfigs accepts =>
          constructor
          · intro run
            cases run with
            | cons _ taken rest =>
                cases taken
                rcases induction.mp rest with ⟨run, run'⟩
                exact ⟨.cons trivial rfl run, run'⟩
          · rintro ⟨run, run'⟩
            cases run with
            | cons _ taken rest =>
                cases taken
                exact .cons trivial rfl (induction.mpr ⟨rest, run'⟩)
      | second globalConfig providerConfigs accepts =>
          constructor
          · intro run
            cases run with
            | cons _ taken rest =>
                cases taken
                rcases induction.mp rest with ⟨run, run'⟩
                exact ⟨run, .cons trivial rfl run'⟩
          · rintro ⟨run, run'⟩
            cases run' with
            | cons _ taken rest =>
                cases taken
                exact .cons trivial rfl (induction.mpr ⟨run, rest⟩)

/-! ## One update -/

theorem updatePluginConfig_eq_iff :
    (s.updatePluginConfig pluginID globalConfig providerConfigs accepts).1 = s ↔
      s.AddsNothing pluginID globalConfig providerConfigs := by
  unfold updatePluginConfig AddsNothing
  cases s.system.manager.instances.lookup pluginID with
  | none => exact iff_of_true rfl (.inl rfl)
  | some inst =>
      rw [← PluginConfig.merge_eq_iff, apply_ite Prod.fst, ite_self]
      cases s
      simp only [mk.injEq, true_and, reduceCtorEq, false_or]

theorem updatePluginConfig_system :
    (s.updatePluginConfig pluginID globalConfig providerConfigs accepts).1.system = s.system := by
  unfold updatePluginConfig
  cases s.system.manager.instances.lookup pluginID with
  | none => rfl
  | some inst => rw [apply_ite Prod.fst, ite_self]

theorem SameFor.refl (pluginID : String) (s : Configured) : SameFor pluginID s s := by
  intro actions s' t' run run'
  induction run with
  | nil s =>
      cases run'
      exact ⟨rfl, fun _ => rfl⟩
  | cons _ taken _ induction =>
      cases run' with
      | cons _ taken' rest =>
          cases taken.symm.trans taken'
          exact induction rest

/-- A plugin can be launched at any time, and gets all there is. -/
theorem SameFor.config (same : SameFor pluginID s t) : s.config = t.config := by
  have run : ∀ u : Configured, Run step (fun _ _ => True) u [.host (.start "")]
      { u with system := { u.system with goroutines := .starting "" :: u.system.goroutines } } :=
    fun u => .cons trivial rfl (.nil _)
  have launched := (same _ _ _ (run s) (run t)).2
    (.host (.advance 0 (.launch (some ⟨pluginID, "", []⟩))))
  simpa [initialized, System.step, focus, System.advance, initConfig] using launched

theorem SameFor.symm (same : SameFor pluginID s t) : SameFor pluginID t s := by
  intro actions t' s' run run'
  rcases same actions s' t' run' run with ⟨reports, inits⟩
  exact ⟨reports.symm, fun action => (inits action).symm⟩

/-- Whatever else the plugin is, it sees an update for another one exactly if that update adds
something. -/
theorem sameFor_updatePluginConfig_iff {other : String} :
    SameFor other (s.updatePluginConfig pluginID globalConfig providerConfigs accepts).1 s ↔
      s.AddsNothing pluginID globalConfig providerConfigs := by
  rw [← @updatePluginConfig_eq_iff _ _ _ _ accepts]
  constructor
  · intro same
    have config := same.config
    have system := @updatePluginConfig_system s pluginID globalConfig providerConfigs accepts
    cases updated : (s.updatePluginConfig pluginID globalConfig providerConfigs accepts).1
    cases s
    rw [updated] at config system
    rw [mk.injEq]
    exact ⟨system, config⟩
  · intro same
    rw [same]
    exact .refl other s

/-! ## Runs -/

theorem pairStep_exact {a b : String} {pair next : Configured × Configured} {move : Move}
    (same : pair.1 = pair.2) (taken : pairStep a pair move = some next) :
    (AddNothing a pair move → next.1 = next.2) ∧
      (SameFor b next.1 next.2 → AddNothing a pair move) := by
  rcases pair with ⟨s, t⟩
  cases same
  cases move with
  | both action =>
      rcases Option.bind_eq_some_iff.mp taken with ⟨s₁, first, mapped⟩
      rcases Option.map_eq_some_iff.mp mapped with ⟨t₁, second, rfl⟩
      exact ⟨fun _ => Option.some_inj.mp (first.symm.trans second), fun _ => trivial⟩
  | first globalConfig providerConfigs accepts =>
      cases taken
      exact ⟨updatePluginConfig_eq_iff.mpr, sameFor_updatePluginConfig_iff.mp⟩
  | second globalConfig providerConfigs accepts =>
      cases taken
      exact ⟨fun adds => (updatePluginConfig_eq_iff.mpr adds).symm,
        fun same => sameFor_updatePluginConfig_iff.mp same.symm⟩

/-- Two plugins that are running, with a provider each, and no settings. -/
def twoRunning : Configured where
  system := { System.initial with
    manager :=
      ((PluginManager.new.startInstalled "/plugins/a"
        (newInstance 0 "/plugins/a" ⟨"plugin-a", "1.0.0", ["mangadex"]⟩)).1.startInstalled
          "/plugins/b" (newInstance 2 "/plugins/b" ⟨"plugin-b", "1.0.0", ["anilist"]⟩)).1 }
  config := ⟨fun _ => none, fun _ => none, ⟨"", "", 0, []⟩⟩

end Configured

end Kiyomi.Plugin.Host
