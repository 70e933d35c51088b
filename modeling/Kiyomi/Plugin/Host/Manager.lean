import Kiyomi.Provider.Routing

namespace Kiyomi.Plugin.Host

open Go Provider

/-! # The plugin manager -/

/-- What `Describe` reports. -/
structure PluginDescriptor where
  pluginID : String
  pluginVersion : String
  /-- The ids of the provider descriptors. -/
  providers : List String
  deriving DecidableEq

structure PluginInstance where
  /-- The identity of the instance, and of the subprocess of its client. -/
  process : Nat
  pluginID : String
  executablePath : String
  adapters : Map String Provider

instance : DecidableEq PluginInstance := fun left right =>
  decidable_of_iff (left.process = right.process ∧ left.pluginID = right.pluginID ∧
    left.executablePath = right.executablePath ∧ left.adapters.entries = right.adapters.entries) <| by
      cases left
      cases right
      simp only [PluginInstance.mk.injEq, AList.ext_iff]

/-- `NewGRPCProviderAdapter`. An adapter has the methods of all three interfaces. -/
def newGRPCProviderAdapter (object : Nat) (desc : PluginDescriptor) (id : String) : Provider where
  object := object
  id := id
  pluginID := some desc.pluginID
  version := some desc.pluginVersion
  isBuiltIn := some false
  isMetadata := true
  isContent := true
  isTracking := true

/-- One adapter object for each descriptor, under the id of its provider. -/
def newAdapters (desc : PluginDescriptor) : Nat → List String → Map String Provider →
    Map String Provider
  | _, [], adapters => adapters
  | object, id :: rest, adapters =>
      newAdapters desc (object + 1) rest
        (adapters.insert id (newGRPCProviderAdapter object desc id))

/-- `startInstance` for a plugin that describes itself by `desc`. The identities from
`objects` on are free. -/
def newInstance (objects : Nat) (binaryPath : String) (desc : PluginDescriptor) :
    PluginInstance where
  process := objects
  pluginID := desc.pluginID
  executablePath := binaryPath
  adapters := newAdapters desc (objects + 1) desc.providers ∅

/-- The first identity that is free after `newInstance`. -/
def objectsAfter (objects : Nat) (desc : PluginDescriptor) : Nat :=
  objects + 1 + desc.providers.length

structure PluginManager where
  /-- `opts.Registry`. -/
  registry : Registry
  instances : Map String PluginInstance
  /-- The path of the executable by plugin id. -/
  binaryPathMap : Map String String

namespace PluginManager

def new : PluginManager where
  registry := Registry.new
  instances := ∅
  binaryPathMap := ∅

/-- Register the adapters of an instance, in the order of the map. -/
def registerAdapters (r : Registry) (inst : PluginInstance) : Registry :=
  (inst.adapters.entries.map (·.2)).foldl Registry.register r

/-- The lock-protected section of `Start`; second the instance that it closes. -/
def startInstalled (m : PluginManager) (binaryPath : String) (inst : PluginInstance) :
    PluginManager × Option PluginInstance :=
  let old := m.instances.lookup inst.pluginID
  let registry :=
    match old with
    | none => m.registry
    | some _ => m.registry.unregisterPlugin inst.pluginID
  ({ registry := registerAdapters registry inst
     instances := m.instances.insert inst.pluginID inst
     binaryPathMap := m.binaryPathMap.insert inst.pluginID binaryPath }, old)

/-- `Stop`, with the instance that it drains and closes; `none` is its error. -/
def stop (m : PluginManager) (pluginID : String) : Option (PluginManager × PluginInstance) :=
  (m.instances.lookup pluginID).map fun inst =>
    ({ m with
       registry := m.registry.unregisterPlugin pluginID
       instances := m.instances.erase pluginID }, inst)

/-- What `Reload` reads first: the old instance and the path of the executable. -/
def reloadRead (m : PluginManager) (pluginID : String) : Option (PluginInstance × String) :=
  (m.instances.lookup pluginID).map fun oldInst =>
    let binaryPath := (m.binaryPathMap.lookup pluginID).getD ""
    (oldInst, if binaryPath = "" then oldInst.executablePath else binaryPath)

/-- The second section of `Reload`: the new instance takes over the routes and the entry. -/
def reloadSwap (m : PluginManager) (pluginID binaryPath : String) (newInst : PluginInstance) :
    PluginManager where
  registry := registerAdapters m.registry newInst
  instances := m.instances.insert pluginID newInst
  binaryPathMap := m.binaryPathMap.insert pluginID binaryPath

end PluginManager

end Kiyomi.Plugin.Host
