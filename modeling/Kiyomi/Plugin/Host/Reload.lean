import Kiyomi.Plugin.Host.Manager
import Kiyomi.Provider.Entries

namespace Kiyomi.Plugin.Host

open Go Provider

/-! # Reloading a plugin

One operation of the manager or of another user of its registry after another. -/

/-! ## Adapters of an instance -/

/-- The adapter of a provider of the plugin. -/
structure IsAdapter (pluginID id : String) (a : Provider) : Prop where
  id : a.id = id
  pluginID : a.pluginID = some pluginID
  isBuiltIn : a.isBuiltIn = some false

theorem IsAdapter.isOf {pluginID id : String} {a : Provider} (adapter : IsAdapter pluginID id a) :
    (Candidate.ofProvider a).isOf pluginID = true := by
  rw [Candidate.isOf_iff]
  simp [Candidate.slot, Candidate.ofProvider, Provider.registeredPluginID,
    Provider.registeredBuiltIn, adapter.pluginID, adapter.isBuiltIn]

theorem newAdapters_spec {desc : PluginDescriptor} {first object : Nat} {ids seen : List String}
    {adapters : Map String Provider} (reached : first ≤ object)
    (made : ∀ id a, adapters.lookup id = some a →
      IsAdapter desc.pluginID id a ∧ first ≤ a.object ∧ a.object < object)
    (keys : ∀ id, id ∈ adapters ↔ id ∈ seen) :
    (∀ id a, (newAdapters desc object ids adapters).lookup id = some a →
      IsAdapter desc.pluginID id a ∧ first ≤ a.object ∧ a.object < object + ids.length) ∧
    ∀ id, id ∈ newAdapters desc object ids adapters ↔ id ∈ seen ∨ id ∈ ids := by
  induction ids generalizing object seen adapters with
  | nil => exact ⟨made, fun id => by simp [newAdapters, keys]⟩
  | cons next rest induction =>
      rw [newAdapters]
      have step := @induction (object + 1) (next :: seen)
        (adapters.insert next (newGRPCProviderAdapter object desc next)) (by omega) ?_ ?_
      · refine ⟨fun id a found => ?_, fun id => ?_⟩
        · rcases step.1 id a found with ⟨adapter, low, high⟩
          exact ⟨adapter, low, by simpa [Nat.add_comm, Nat.add_left_comm] using high⟩
        · rw [step.2]
          simp [or_assoc, or_left_comm]
      · intro id a found
        rw [Map.lookup_insert] at found
        split at found
        · rename_i same
          cases found
          exact ⟨⟨same.symm, rfl, rfl⟩, reached, Nat.lt_succ_self object⟩
        · rcases made id a found with ⟨adapter, low, high⟩
          exact ⟨adapter, low, by omega⟩
      · intro id
        rw [AList.mem_insert, keys, List.mem_cons]

/-- The adapters of a new instance: one for each provider of the descriptor, all of them
new objects. -/
theorem newInstance_adapters (objects : Nat) (path : String) (desc : PluginDescriptor) :
    (∀ id a, (newInstance objects path desc).adapters.lookup id = some a →
      IsAdapter desc.pluginID id a ∧ objects ≤ a.object ∧ a.object < objectsAfter objects desc) ∧
    ∀ id, id ∈ (newInstance objects path desc).adapters ↔ id ∈ desc.providers := by
  have spec := @newAdapters_spec desc objects (objects + 1) desc.providers [] ∅ (by omega)
    (fun id a found => by cases found)
    (fun id => iff_of_false (AList.notMem_empty id) List.not_mem_nil)
  exact ⟨spec.1, fun id => (spec.2 id).trans (by simp)⟩

/-! ## The system -/

structure State where
  manager : PluginManager
  /-- The identities below are taken. -/
  objects : Nat

namespace State

def initial : State := ⟨.new, 0⟩

/-- `Reload` when the new build starts and describes itself by `desc`; `none` is the error
for a plugin that is not tracked. -/
def reload (h : State) (pluginID : String) (desc : PluginDescriptor) : Option State :=
  (h.manager.reloadRead pluginID).map fun (_, binaryPath) =>
    { manager := h.manager.reloadSwap pluginID binaryPath (newInstance h.objects binaryPath desc)
      objects := objectsAfter h.objects desc }

inductive Action
  | start (binaryPath : String) (desc : PluginDescriptor)
  | stop (pluginID : String)
  | reload (pluginID : String) (desc : PluginDescriptor)
  /-- An operation of another user of the registry. -/
  | registry (operation : Registry.Operation)

/-- A bound of the objects that an operation brings. -/
def broughtObjects : Registry.Operation → Nat
  | .register (some p) => p.object + 1
  | .swapProvider _ _ newProv => newProv.object + 1
  | _ => 0

def step : StepFunction State Action
  | h, .start binaryPath desc => some
      { manager := (h.manager.startInstalled binaryPath
          (newInstance h.objects binaryPath desc)).1
        objects := objectsAfter h.objects desc }
  | h, .stop pluginID => (h.manager.stop pluginID).map fun (manager, _) => { h with manager }
  | h, .reload pluginID desc => h.reload pluginID desc
  | h, .registry operation => some
      { manager := { h.manager with registry := h.manager.registry.apply operation }
        objects := max h.objects (broughtObjects operation) }

/-- A reload starts a build of the plugin it is about, and a swap of the registry replaces
an implementation by one of the same provider. -/
def Permitted (_ : State) : Action → Prop
  | .reload pluginID desc => desc.pluginID = pluginID
  | .registry operation => operation.KeepsIdentity
  | _ => True

structure Valid (h : State) : Prop where
  sound : h.manager.registry.Sound
  known : ∀ p, h.objects ≤ p.object → h.manager.registry.Lacks p
  tracked : ∀ pluginID inst, h.manager.instances.lookup pluginID = some inst →
    ∀ id a, inst.adapters.lookup id = some a → IsAdapter pluginID id a ∧ a.object < h.objects

/-! ## Registering an instance -/

theorem mem_adapters {inst : PluginInstance} {a : Provider} :
    a ∈ inst.adapters.entries.map (·.2) ↔ ∃ id, inst.adapters.lookup id = some a := by
  rw [List.mem_map]
  constructor
  · rintro ⟨⟨id, _⟩, member, rfl⟩
    exact ⟨id, AList.mem_lookup_iff.mpr member⟩
  · rintro ⟨id, found⟩
    exact ⟨⟨id, a⟩, AList.mem_lookup_iff.mp found, rfl⟩

theorem candidatesOf_registerAdapters {r : Registry} (sound : r.Sound) {inst : PluginInstance}
    (ids : ∀ id a, inst.adapters.lookup id = some a → a.id = id) (baseID : String) :
    (PluginManager.registerAdapters r inst).candidatesOf baseID =
      match inst.adapters.lookup baseID with
      | none => r.candidatesOf baseID
      | some a => Registry.registered a (r.candidatesOf baseID) := by
  have keys : (inst.adapters.entries.map (·.2)).map Provider.id = inst.adapters.keys := by
    rw [List.map_map]
    refine List.map_congr_left fun entry member => ?_
    exact ids entry.1 entry.2 (AList.mem_lookup_iff.mpr member)
  have distinct : ((inst.adapters.entries.map (·.2)).map Provider.id).Nodup :=
    keys ▸ inst.adapters.keys_nodup
  rw [PluginManager.registerAdapters, Registry.candidatesOf_registerAll sound distinct]
  cases found : inst.adapters.lookup baseID with
  | none =>
      have absent : (inst.adapters.entries.map (·.2)).find? (fun p => p.id == baseID) = none := by
        rw [List.find?_eq_none]
        intro a member isBase
        rcases mem_adapters.mp member with ⟨id, isIn⟩
        rw [← beq_iff_eq.mp isBase, ids id a isIn, isIn] at found
        contradiction
      rw [absent]
  | some a =>
      cases first : (inst.adapters.entries.map (·.2)).find? fun p => p.id == baseID with
      | none =>
          have missing := List.find?_eq_none.mp first a (mem_adapters.mpr ⟨baseID, found⟩)
          exact absurd (beq_iff_eq.mpr (ids baseID a found)) missing
      | some b =>
          rcases mem_adapters.mp (List.mem_of_find?_eq_some first) with ⟨id, isIn⟩
          have isBase : b.id = baseID := by simpa using List.find?_some first
          rw [← isBase, ids id b isIn, isIn] at found
          cases found
          rfl

theorem lacks_registerAdapters {r : Registry} (sound : r.Sound) {inst : PluginInstance}
    {p : Provider} (lacks : r.Lacks p) (absent : ∀ id, inst.adapters.lookup id ≠ some p) :
    (PluginManager.registerAdapters r inst).Lacks p := by
  refine Registry.lacks_registerAll sound lacks fun member => ?_
  rcases mem_adapters.mp member with ⟨id, found⟩
  exact absent id found

/-! ## The invariant -/

theorem valid_initial : initial.Valid where
  sound := Registry.sound_new
  known _ _ _ _ member := absurd member List.not_mem_nil
  tracked _ _ found := by cases found

variable {h h' : State}

/-- A new instance takes an entry, with its adapters registered after `registry`. -/
theorem Valid.installed (valid : h.Valid) {registry : Registry} (sound : registry.Sound)
    (known : ∀ p, h.objects ≤ p.object → registry.Lacks p) (pluginID binaryPath : String)
    {desc : PluginDescriptor} (sameID : desc.pluginID = pluginID)
    (binaryPathMap : Map String String) : Valid
      { manager :=
          { registry := PluginManager.registerAdapters registry
              (newInstance h.objects binaryPath desc)
            instances := h.manager.instances.insert pluginID
              (newInstance h.objects binaryPath desc)
            binaryPathMap := binaryPathMap }
        objects := objectsAfter h.objects desc } := by
  have spec := newInstance_adapters h.objects binaryPath desc
  have grows : h.objects ≤ objectsAfter h.objects desc := by
    unfold objectsAfter
    omega
  refine ⟨Registry.sound_registerAll sound _, fun p large => ?_, fun other inst found id a isIn => ?_⟩
  · refine lacks_registerAdapters sound (known p (grows.trans large)) fun id isIn => ?_
    exact absurd (spec.1 id p isIn).2.2 (not_lt.mpr large)
  · rw [Map.lookup_insert] at found
    split at found
    · rename_i same
      cases found
      rw [same, ← sameID]
      exact ⟨(spec.1 id a isIn).1, (spec.1 id a isIn).2.2⟩
    · have old := valid.tracked other inst found id a isIn
      exact ⟨old.1, old.2.trans_le grows⟩

theorem Valid.unregistered (valid : h.Valid) (pluginID : String) :
    (h.manager.registry.unregisterPlugin pluginID).Sound ∧
      ∀ p, h.objects ≤ p.object → (h.manager.registry.unregisterPlugin pluginID).Lacks p := by
  refine ⟨Registry.sound_unregisterPlugin valid.sound pluginID, fun p large => ?_⟩
  have other : ¬ Registry.Operation.Brings p (.unregisterPlugin pluginID) := id
  exact Registry.lacks_apply valid.sound.current.contained (valid.known p large) other

theorem reload_eq {pluginID : String} {desc : PluginDescriptor}
    (reloaded : h.reload pluginID desc = some h') :
    ∃ binaryPath, h' =
      { manager := h.manager.reloadSwap pluginID binaryPath
          (newInstance h.objects binaryPath desc)
        objects := objectsAfter h.objects desc } := by
  rcases Option.map_eq_some_iff.mp reloaded with ⟨⟨old, binaryPath⟩, _, rfl⟩
  exact ⟨binaryPath, rfl⟩

theorem valid_step {action : Action} (permitted : h.Permitted action) (valid : h.Valid)
    (taken : step h action = some h') : h'.Valid := by
  cases action with
  | start binaryPath desc =>
      cases taken
      unfold PluginManager.startInstalled
      cases h.manager.instances.lookup (newInstance h.objects binaryPath desc).pluginID with
      | none => exact valid.installed valid.sound valid.known _ _ rfl _
      | some old =>
          have kept := valid.unregistered desc.pluginID
          exact valid.installed kept.1 kept.2 _ _ rfl _
  | stop pluginID =>
      rcases Option.map_eq_some_iff.mp taken with ⟨⟨manager, inst⟩, stopped, rfl⟩
      rcases Option.map_eq_some_iff.mp stopped with ⟨_, _, same⟩
      cases same
      have kept := valid.unregistered pluginID
      refine ⟨kept.1, kept.2, fun other inst found => ?_⟩
      rw [Map.lookup_erase] at found
      split at found
      · contradiction
      · exact valid.tracked other inst found
  | reload pluginID desc =>
      rcases reload_eq taken with ⟨binaryPath, rfl⟩
      exact valid.installed valid.sound valid.known pluginID binaryPath permitted _
  | registry operation =>
      cases taken
      refine ⟨Registry.sound_apply valid.sound permitted, fun p large => ?_,
        fun other inst found id a isIn => ?_⟩
      · have old := valid.known p ((le_max_left _ _).trans large)
        refine Registry.lacks_apply valid.sound.current.contained old fun brings => ?_
        have bound : p.object < broughtObjects operation := by
          cases operation with
          | register q =>
              cases brings
              exact Nat.lt_succ_self _
          | swapProvider baseID oldProv newProv =>
              cases brings
              exact Nat.lt_succ_self _
          | unregister id => exact brings.elim
          | unregisterPlugin pluginID => exact brings.elim
          | setUserPreference providerID preferredSource => exact brings.elim
        exact absurd ((le_max_right _ _).trans large) (not_le.mpr bound)
      · have old := valid.tracked other inst found id a isIn
        exact ⟨old.1, old.2.trans_le (le_max_left _ _)⟩

theorem valid_of_run {actions : List Action} (run : Run step Permitted initial actions h) :
    h.Valid :=
  run.invariant Valid (fun _ _ _ permitted valid taken => valid_step permitted valid taken)
    valid_initial

/-! ## After a reload -/

/-- The registry holds the adapters of the new instance for the plugin, and those of the old
one are out of reach; everybody else's entries are as before. -/
structure Reloaded (h h' : State) (pluginID : String) (desc : PluginDescriptor) : Prop where
  /-- One adapter for each provider that the new build offers. -/
  offered : ∀ newInst, h'.manager.instances.lookup pluginID = some newInst →
    ∀ id, id ∈ newInst.adapters ↔ id ∈ desc.providers
  own : ∀ newInst, h'.manager.instances.lookup pluginID = some newInst → ∀ baseID,
    (h'.manager.registry.candidatesOf baseID).filter (Candidate.isOf pluginID) =
      (newInst.adapters.lookup baseID).toList.map Candidate.ofProvider
  gone : ∀ oldInst, h.manager.instances.lookup pluginID = some oldInst →
    ∀ id a, oldInst.adapters.lookup id = some a → ¬ h'.manager.registry.Finds a
  others : ∀ baseID,
    (h'.manager.registry.candidatesOf baseID).filter (fun c => !c.isOf pluginID) =
      (h.manager.registry.candidatesOf baseID).filter fun c => !c.isOf pluginID

/-- Every provider that the plugin has an entry for is one that the new build offers. -/
def OffersAll (h : State) (pluginID : String) (desc : PluginDescriptor) : Prop :=
  ∀ baseID, ∀ c ∈ h.manager.registry.candidatesOf baseID, c.isOf pluginID = true →
    baseID ∈ desc.providers

theorem Valid.reloaded_iff (valid : h.Valid) {pluginID : String} {desc : PluginDescriptor}
    (sameID : desc.pluginID = pluginID) (reloaded : h.reload pluginID desc = some h') :
    Reloaded h h' pluginID desc ↔ OffersAll h pluginID desc := by
  rcases reload_eq reloaded with ⟨binaryPath, rfl⟩
  rcases newInstance_adapters h.objects binaryPath desc with ⟨spec, offered⟩
  rw [sameID] at spec
  have tracked : (h.manager.instances.insert pluginID (newInstance h.objects binaryPath
      desc)).lookup pluginID = some (newInstance h.objects binaryPath desc) :=
    AList.lookup_insert _
  have candidates := candidatesOf_registerAdapters valid.sound fun id a found => (spec id a found).1.id
  have noted := valid.sound.noted
  have own : ∀ baseID, ((PluginManager.registerAdapters h.manager.registry
      (newInstance h.objects binaryPath desc)).candidatesOf baseID).filter
        (Candidate.isOf pluginID) =
      match (newInstance h.objects binaryPath desc).adapters.lookup baseID with
      | none => (h.manager.registry.candidatesOf baseID).filter (Candidate.isOf pluginID)
      | some a => [Candidate.ofProvider a] := by
    intro baseID
    rw [candidates]
    cases found : (newInstance h.objects binaryPath desc).adapters.lookup baseID with
    | none => rfl
    | some a => exact (noted baseID).registered_own (spec baseID a found).1.isOf
  constructor
  · intro exactly baseID c member isOf
    by_contra dropped
    have absent : (newInstance h.objects binaryPath desc).adapters.lookup baseID = none :=
      AList.lookup_eq_none.mpr (mt (offered baseID).mp dropped)
    have left := exactly.own _ tracked baseID
    change ((PluginManager.registerAdapters h.manager.registry
      (newInstance h.objects binaryPath desc)).candidatesOf baseID).filter _ = _ at left
    rw [own, absent] at left
    change (h.manager.registry.candidatesOf baseID).filter _ = [] at left
    have kept : c ∈ (h.manager.registry.candidatesOf baseID).filter (Candidate.isOf pluginID) :=
      List.mem_filter.mpr ⟨member, isOf⟩
    rw [left] at kept
    exact List.not_mem_nil kept
  · intro offersAll
    have owned : ∀ baseID, ((PluginManager.registerAdapters h.manager.registry
        (newInstance h.objects binaryPath desc)).candidatesOf baseID).filter
          (Candidate.isOf pluginID) =
        ((newInstance h.objects binaryPath desc).adapters.lookup baseID).toList.map
          Candidate.ofProvider := by
      intro baseID
      rw [own]
      cases found : (newInstance h.objects binaryPath desc).adapters.lookup baseID with
      | none =>
          have absent := mt (offered baseID).mpr (AList.lookup_eq_none.mp found)
          exact List.filter_eq_nil_iff.mpr fun c member isOf =>
            absent (offersAll baseID c member isOf)
      | some a => rfl
    refine ⟨fun newInst isNew => ?_, fun newInst isNew => ?_, fun oldInst isOld id a isIn finds => ?_,
      fun baseID => ?_⟩
    · cases tracked.symm.trans isNew
      exact offered
    · cases tracked.symm.trans isNew
      exact owned
    · -- An entry with an old adapter would be one of the plugin, and those are all new.
      have old := valid.tracked pluginID oldInst isOld id a isIn
      have sound := Registry.sound_registerAll valid.sound
        ((newInstance h.objects binaryPath desc).adapters.entries.map (·.2))
      rcases sound.current.candidate_of_finds finds with ⟨baseID, c, member, holds⟩
      have isOf : c.isOf pluginID = true := by
        rw [Candidate.isOf_iff, (sound.noted baseID).slot c member, holds]
        exact Candidate.isOf_iff.mp old.1.isOf
      have ofPlugin := List.mem_filter.mpr ⟨member, isOf⟩
      change c ∈ ((PluginManager.registerAdapters h.manager.registry
        (newInstance h.objects binaryPath desc)).candidatesOf baseID).filter _ at ofPlugin
      rw [owned] at ofPlugin
      rcases List.mem_map.mp ofPlugin with ⟨b, isNew, rfl⟩
      have isAdapter := (spec baseID b (Option.mem_toList.mp isNew)).2.1
      rw [show b = a from holds] at isAdapter
      exact absurd old.2 (not_lt.mpr isAdapter)
    · change ((PluginManager.registerAdapters h.manager.registry
        (newInstance h.objects binaryPath desc)).candidatesOf baseID).filter _ = _
      rw [candidates]
      cases found : (newInstance h.objects binaryPath desc).adapters.lookup baseID with
      | none => rfl
      | some a => exact Registry.registered_others (spec baseID a found).1.isOf

/-- In every reachable state a reload leaves the registry exact if and only if the new build
offers every provider that the plugin is registered for. -/
theorem reload_exact_iff {actions : List Action} (run : Run step Permitted initial actions h)
    {pluginID : String} {desc : PluginDescriptor} (sameID : desc.pluginID = pluginID)
    (reloaded : h.reload pluginID desc = some h') :
    Reloaded h h' pluginID desc ↔ OffersAll h pluginID desc :=
  (valid_of_run run).reloaded_iff sameID reloaded

/-- The state after the start of a build, and after its reload with another. -/
def started (desc : PluginDescriptor) : State :=
  { manager := (PluginManager.new.startInstalled "pack" (newInstance 0 "pack" desc)).1
    objects := objectsAfter 0 desc }

theorem run_started (desc : PluginDescriptor) :
    Run step Permitted initial [.start "pack" desc] (started desc) :=
  .cons trivial rfl (.nil _)

theorem reload_exact_iff_same_providers :
    ∃ h', (started ⟨"pack", "1.0.0", ["fox", "hen"]⟩).reload "pack"
        ⟨"pack", "1.1.0", ["hen", "fox"]⟩ = some h' ∧
      Reloaded (started ⟨"pack", "1.0.0", ["fox", "hen"]⟩) h' "pack"
        ⟨"pack", "1.1.0", ["hen", "fox"]⟩ := by
  have offered : ∀ baseID ∈ (started ⟨"pack", "1.0.0", ["fox", "hen"]⟩).manager.registry.candidates.keys,
      baseID ∈ ["hen", "fox"] := by
    decide +kernel
  cases reloaded : (started ⟨"pack", "1.0.0", ["fox", "hen"]⟩).reload "pack"
      ⟨"pack", "1.1.0", ["hen", "fox"]⟩ with
  | none => contradiction
  | some h' =>
      refine ⟨h', rfl, (reload_exact_iff (run_started _) rfl reloaded).mpr ?_⟩
      exact fun baseID c member _ => offered baseID (Registry.mem_keys_of_candidate member)

/-- The new build has dropped a provider, which stays routed to the old process. -/
theorem reload_leaves_dropped_provider :
    ¬ ∀ (actions : List Action) (h h' : State) (pluginID : String) (desc : PluginDescriptor),
      Run step Permitted initial actions h → desc.pluginID = pluginID →
      h.reload pluginID desc = some h' → Reloaded h h' pluginID desc := by
  intro always
  have reloaded := always _ _ _ "pack" ⟨"pack", "1.1.0", ["fox"]⟩
    (run_started ⟨"pack", "1.0.0", ["fox", "hen"]⟩) rfl rfl
  have own := reloaded.own _ rfl "hen"
  revert own
  decide +kernel

end State

end Kiyomi.Plugin.Host
