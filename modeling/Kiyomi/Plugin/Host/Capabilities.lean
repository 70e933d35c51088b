import Kiyomi.Plugin.Host.Reload

namespace Kiyomi.Provider

open Go

/-! # Declared capabilities

A provider declares its capabilities as data, while the registry goes by the interfaces that
its type implements. -/

namespace Registry

variable {r r' : Registry} {baseID pref : String} {list : List Candidate}

/-- The other tables are the part of `provs` that implements their interface. -/
def Indexed (r : Registry) : Prop :=
  ∀ t key, (r.table t).lookup key = (r.get key).filter (·.isIn t)

theorem Indexed.contained (indexed : r.Indexed) : r.Contained := by
  intro t key present absent
  rw [indexed, get, absent] at present
  exact present rfl

theorem indexed_new : new.Indexed := by
  intro t key
  cases t <;> rfl

theorem Recomputed.indexed (recomputed : Recomputed r r' baseID list pref)
    (indexed : r.Indexed) : r'.Indexed := by
  have all (found : Option Provider) : found.filter (·.isIn .provs) = found := by
    cases found <;> rfl
  intro t key
  have getEq := recomputed.routes .provs key
  rw [all] at getEq
  change r'.get key = _ at getEq
  rw [getEq, recomputed.routes]
  split
  · rfl
  · exact indexed t key

theorem indexed_apply (indexed : r.Indexed) (operation : Operation) :
    (r.apply operation).Indexed :=
  apply_keeps Indexed.contained (fun indexed recomputed => recomputed.indexed indexed) indexed
    operation

/-- A lookup by capability succeeds exactly for the providers that declare it, and the lists
have the primary ones of these. -/
structure RoutesByCapability (r : Registry) (capabilities : Provider → List String) : Prop where
  getMetadata : ∀ id, (r.getMetadata id).isSome = true ↔
    ∃ p, r.get id = some p ∧ "metadata" ∈ capabilities p
  getContent : ∀ id, (r.getContent id).isSome = true ↔
    ∃ p, r.get id = some p ∧ "content" ∈ capabilities p
  getTracking : ∀ id, (r.getTracking id).isSome = true ↔
    ∃ p, r.get id = some p ∧ "tracking" ∈ capabilities p
  listContent : ∀ p, p ∈ r.listContent ↔
    ∃ id, '@' ∉ id.toList ∧ r.get id = some p ∧ "content" ∈ capabilities p
  listMetadata : ∀ p, p ∈ r.listMetadata ↔
    ∃ id, '@' ∉ id.toList ∧ r.get id = some p ∧ "metadata" ∈ capabilities p

/-- A provider declares exactly the interfaces that its type implements. -/
structure Declares (capabilities : Provider → List String) (p : Provider) : Prop where
  metadata : "metadata" ∈ capabilities p ↔ p.isMetadata = true
  content : "content" ∈ capabilities p ↔ p.isContent = true
  tracking : "tracking" ∈ capabilities p ↔ p.isTracking = true

theorem mem_primary {m : Map String Provider} {p : Provider} :
    p ∈ primary m ↔ ∃ id, '@' ∉ id.toList ∧ m.lookup id = some p := by
  rw [primary, List.mem_map]
  constructor
  · rintro ⟨⟨id, _⟩, member, rfl⟩
    rcases List.mem_filter.mp member with ⟨isIn, free⟩
    exact ⟨id, of_decide_eq_true free, AList.mem_lookup_iff.mpr isIn⟩
  · rintro ⟨id, free, found⟩
    exact ⟨⟨id, p⟩, List.mem_filter.mpr ⟨AList.mem_lookup_iff.mp found, decide_eq_true free⟩, rfl⟩

/-- A lookup in a table succeeds for the providers that declare its capability exactly if each
that is routed declares what it implements. -/
theorem lookup_isSome_iff (indexed : r.Indexed) (t : Table) (declared : Provider → Prop) :
    (∀ id, ((r.table t).lookup id).isSome = true ↔ ∃ p, r.get id = some p ∧ declared p) ↔
      ∀ id p, r.get id = some p → (declared p ↔ p.isIn t = true) := by
  refine forall_congr' fun id => ?_
  rw [indexed]
  cases found : r.get id with
  | none => simp
  | some p =>
      simp only [Option.some_inj, exists_eq_left', forall_eq', Option.filter_some]
      cases p.isIn t <;> simp [iff_comm]

theorem mem_primary_table (indexed : r.Indexed) {t : Table} {p : Provider} :
    p ∈ primary (r.table t) ↔ ∃ id, '@' ∉ id.toList ∧ r.get id = some p ∧ p.isIn t = true := by
  simp only [mem_primary, indexed t, Option.filter_eq_some_iff]

/-- The lookups and lists go by the declared capabilities exactly if every provider that a
handle resolves to declares what it implements. -/
theorem routesByCapability_iff (indexed : r.Indexed) (capabilities : Provider → List String) :
    r.RoutesByCapability capabilities ↔
      ∀ id p, r.get id = some p → Declares capabilities p := by
  constructor
  · intro routes id p found
    exact ⟨(lookup_isSome_iff indexed .metadata _).mp routes.getMetadata id p found,
      (lookup_isSome_iff indexed .content _).mp routes.getContent id p found,
      (lookup_isSome_iff indexed .tracking _).mp routes.getTracking id p found⟩
  · intro declares
    refine ⟨(lookup_isSome_iff indexed .metadata _).mpr fun id p found => (declares id p found).metadata,
      (lookup_isSome_iff indexed .content _).mpr fun id p found => (declares id p found).content,
      (lookup_isSome_iff indexed .tracking _).mpr fun id p found => (declares id p found).tracking,
      fun p => ?_, fun p => ?_⟩
    · rw [listContent, show r.content = r.table .content from rfl, mem_primary_table indexed]
      refine exists_congr fun id => and_congr_right fun _ => and_congr_right fun found => ?_
      exact (declares id p found).content.symm
    · rw [listMetadata, show r.metadata = r.table .metadata from rfl, mem_primary_table indexed]
      refine exists_congr fun id => and_congr_right fun _ => and_congr_right fun found => ?_
      exact (declares id p found).metadata.symm

/-! ## Registries of one kind of provider -/

theorem indexed_foldl (indexed : r.Indexed) (operations : List Operation) :
    (operations.foldl apply r).Indexed := by
  induction operations generalizing r with
  | nil => exact indexed
  | cons operation operations induction => exact induction (indexed_apply indexed operation)

/-- What no operation has brought is not routed. -/
theorem lacks_foldl {p : Provider} (current : r.Current) (lacks : r.Lacks p)
    {operations : List Operation} (others : ∀ operation ∈ operations, ¬ operation.Brings p) :
    (operations.foldl apply r).Lacks p := by
  induction operations generalizing r with
  | nil => exact lacks
  | cons operation operations induction =>
      have apart := List.forall_mem_cons.mp others
      exact induction (current_apply current operation)
        (lacks_apply current.contained lacks apart.1) apart.2

/-- A provider that is routed has been brought by an operation. -/
theorem brought_of_get {operations : List Operation} {id : String} {p : Provider}
    (found : (operations.foldl apply new).get id = some p) :
    ∃ operation ∈ operations, operation.Brings p := by
  by_contra none_brings
  push Not at none_brings
  have lacks : new.Lacks p := fun baseID c member => absurd member List.not_mem_nil
  rcases (current_foldl current_new operations).present .provs id p found with
    ⟨baseID, _, c, member, same⟩
  exact lacks_foldl current_new lacks none_brings baseID c member same

end Registry

end Kiyomi.Provider

namespace Kiyomi.Plugin.Host

open Go Provider

/-! ## Plugin providers -/

/-- `sdk.ProviderDescriptor`: the id of a provider and the capabilities that it declares. -/
structure ProviderDescriptor where
  id : String
  capabilities : List String

/-- The adapter of some provider of a plugin. -/
def IsGRPCAdapter (p : Provider) : Prop :=
  ∃ object desc id, p = newGRPCProviderAdapter object desc id

/-- `Capabilities` of the adapters that are made for these descriptors, whose objects begin at
`first`: what the descriptor declares. -/
def adapterCapabilities (first : Nat) (descriptors : List ProviderDescriptor) (p : Provider) :
    List String :=
  ((descriptors[p.object - first]?).map (·.capabilities)).getD []

/-- All three capabilities, as the type of the adapters implements all three interfaces. -/
def DeclaresAll (capabilities : List String) : Prop :=
  "metadata" ∈ capabilities ∧ "content" ∈ capabilities ∧ "tracking" ∈ capabilities

theorem declares_iff {capabilities : Provider → List String} {p : Provider}
    (adapter : IsGRPCAdapter p) :
    Registry.Declares capabilities p ↔ DeclaresAll (capabilities p) := by
  rcases adapter with ⟨object, desc, id, rfl⟩
  constructor
  · intro declares
    exact ⟨declares.metadata.mpr rfl, declares.content.mpr rfl, declares.tracking.mpr rfl⟩
  · rintro ⟨metadata, content, tracking⟩
    exact ⟨iff_of_true metadata rfl, iff_of_true content rfl, iff_of_true tracking rfl⟩

namespace State

/-- Other users of the registry bring no providers but those of plugins. -/
def OnlyAdapters (_ : State) : Action → Prop
  | .registry operation => ∀ p, operation.Brings p → IsGRPCAdapter p
  | _ => True

/-- The registry is the outcome of operations that bring adapters. -/
def Adapting (h : State) : Prop :=
  ∃ operations : List Registry.Operation, h.manager.registry = operations.foldl Registry.apply .new ∧
    ∀ operation ∈ operations, ∀ p, operation.Brings p → IsGRPCAdapter p

theorem newAdapters_areAdapters {desc : PluginDescriptor} {object : Nat} {ids : List String}
    {adapters : Map String Provider}
    (made : ∀ id a, adapters.lookup id = some a → IsGRPCAdapter a) :
    ∀ id a, (newAdapters desc object ids adapters).lookup id = some a → IsGRPCAdapter a := by
  induction ids generalizing object adapters with
  | nil => exact made
  | cons next rest induction =>
      refine induction fun id a found => ?_
      rw [Map.lookup_insert] at found
      split at found
      · cases found
        exact ⟨object, desc, next, rfl⟩
      · exact made id a found

variable {h h' : State}

theorem Adapting.append (adapting : h.Adapting) {more : List Registry.Operation}
    (adapters : ∀ operation ∈ more, ∀ p, operation.Brings p → IsGRPCAdapter p)
    (outcome : h'.manager.registry = more.foldl Registry.apply h.manager.registry) :
    h'.Adapting := by
  rcases adapting with ⟨operations, same, brought⟩
  refine ⟨operations ++ more, ?_, fun operation member => ?_⟩
  · rw [outcome, same, List.foldl_append]
  · rcases List.mem_append.mp member with early | late
    · exact brought operation early
    · exact adapters operation late

/-- The operations that `registerAdapters` comes down to. -/
def registrations (inst : PluginInstance) : List Registry.Operation :=
  inst.adapters.entries.map fun entry => .register (some entry.2)

theorem registerAdapters_eq (r : Registry) (inst : PluginInstance) :
    PluginManager.registerAdapters r inst = (registrations inst).foldl Registry.apply r := by
  rw [PluginManager.registerAdapters, registrations, List.foldl_map, List.foldl_map]
  rfl

theorem registrations_adapters (objects : Nat) (binaryPath : String) (desc : PluginDescriptor) :
    ∀ operation ∈ registrations (newInstance objects binaryPath desc), ∀ p,
      operation.Brings p → IsGRPCAdapter p := by
  intro operation member p brings
  rcases List.mem_map.mp member with ⟨⟨id, a⟩, isIn, rfl⟩
  cases brings
  exact newAdapters_areAdapters (fun _ _ found => by cases found) id a
    (AList.mem_lookup_iff.mpr isIn)

theorem adapting_step {action : Action} (only : h.OnlyAdapters action) (adapting : h.Adapting)
    (taken : step h action = some h') : h'.Adapting := by
  cases action with
  | start binaryPath desc =>
      cases taken
      have fresh := registrations_adapters h.objects binaryPath desc
      unfold PluginManager.startInstalled
      cases h.manager.instances.lookup (newInstance h.objects binaryPath desc).pluginID with
      | none => exact adapting.append fresh (registerAdapters_eq _ _)
      | some old =>
          refine @Adapting.append h _ adapting (.unregisterPlugin desc.pluginID ::
            registrations (newInstance h.objects binaryPath desc)) ?_ ?_
          · exact List.forall_mem_cons.mpr ⟨fun p brings => brings.elim, fresh⟩
          · exact registerAdapters_eq _ _
  | stop pluginID =>
      rcases Option.map_eq_some_iff.mp taken with ⟨⟨manager, inst⟩, stopped, rfl⟩
      rcases Option.map_eq_some_iff.mp stopped with ⟨_, _, same⟩
      cases same
      refine @Adapting.append h _ adapting [.unregisterPlugin pluginID] ?_ ?_
      · exact List.forall_mem_singleton.mpr fun p brings => brings.elim
      · rfl
  | reload pluginID desc =>
      rcases reload_eq taken with ⟨binaryPath, rfl⟩
      exact adapting.append (registrations_adapters h.objects binaryPath desc)
        (registerAdapters_eq _ _)
  | registry operation =>
      cases taken
      refine @Adapting.append h _ adapting [operation] ?_ ?_
      · exact List.forall_mem_singleton.mpr only
      · rfl

theorem adapting_of_run {actions : List Action} (run : Run step OnlyAdapters initial actions h) :
    h.Adapting :=
  run.invariant Adapting (fun _ _ _ only adapting taken => adapting_step only adapting taken)
    ⟨[], rfl, fun _ member => absurd member List.not_mem_nil⟩

/-- In every reachable state the lookups and lists go by the declared capabilities exactly if
every provider that a handle resolves to declares all three. -/
theorem routesByCapability_iff_declaresAll {actions : List Action}
    (run : Run step OnlyAdapters initial actions h) (capabilities : Provider → List String) :
    h.manager.registry.RoutesByCapability capabilities ↔
      ∀ id p, h.manager.registry.get id = some p → DeclaresAll (capabilities p) := by
  rcases adapting_of_run run with ⟨operations, same, adapters⟩
  have indexed : h.manager.registry.Indexed := by
    rw [same]
    exact Registry.indexed_foldl Registry.indexed_new operations
  rw [Registry.routesByCapability_iff indexed]
  refine forall_congr' fun id => forall_congr' fun p => forall_congr' fun found => ?_
  rw [same] at found
  rcases Registry.brought_of_get found with ⟨operation, member, brings⟩
  exact declares_iff (adapters operation member p brings)

/-- A plugin that has been started, described by what it declares. -/
def startedWith (descriptors : List ProviderDescriptor) : State :=
  started ⟨"pack", "1.0.0", descriptors.map (·.id)⟩

theorem run_startedWith (descriptors : List ProviderDescriptor) :
    Run step OnlyAdapters initial [.start "pack" ⟨"pack", "1.0.0", descriptors.map (·.id)⟩]
      (startedWith descriptors) :=
  .cons trivial rfl (.nil _)

theorem routesByCapability_iff_declaresAll_full_provider :
    (startedWith [⟨"fox", ["metadata", "content", "tracking"]⟩]).manager.registry.RoutesByCapability
      (adapterCapabilities 1 [⟨"fox", ["metadata", "content", "tracking"]⟩]) := by
  refine (routesByCapability_iff_declaresAll (run_startedWith _) _).mpr fun id p found => ?_
  have object : ∀ entry ∈ (startedWith [⟨"fox", ["metadata", "content",
      "tracking"]⟩]).manager.registry.provs.entries, entry.2.object = 1 := by
    decide +kernel
  have isFirst := object ⟨id, p⟩ (AList.mem_lookup_iff.mp found)
  rw [adapterCapabilities, show p.object = 1 from isFirst]
  exact ⟨by decide, by decide, by decide⟩

/-- A provider that declares content alone is found as a provider of metadata. -/
theorem content_provider_found_as_metadata :
    ¬ ∀ (actions : List Action) (h : State) (capabilities : Provider → List String),
      Run step OnlyAdapters initial actions h →
        h.manager.registry.RoutesByCapability capabilities := by
  intro always
  have routes := always _ _ (adapterCapabilities 1 [⟨"fox", ["content"]⟩])
    (run_startedWith [⟨"fox", ["content"]⟩])
  rcases (routes.getMetadata "fox").mp (by decide +kernel) with ⟨p, found, declared⟩
  have object : ∀ entry ∈ (startedWith [⟨"fox", ["content"]⟩]).manager.registry.provs.entries,
      entry.2.object = 1 := by
    decide +kernel
  have isFirst := object ⟨"fox", p⟩ (AList.mem_lookup_iff.mp found)
  rw [adapterCapabilities, show p.object = 1 from isFirst] at declared
  revert declared
  decide

end State

end Kiyomi.Plugin.Host
