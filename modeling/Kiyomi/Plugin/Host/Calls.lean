import Kiyomi.Plugin.Host.Processes

namespace Kiyomi.Plugin.Host

open Go Provider

/-! # Zero-downtime reload

A drained instance stays unused if nobody held one of its adapters when the drain ended and
the registry no longer led to them. -/

namespace Goroutine

/-- The instance that waits for its installation. -/
def pending : Goroutine → Option PluginInstance
  | .started _ inst => some inst
  | .launched _ _ _ newInst => some newInst
  | _ => none

/-- The process of the instance that a reload replaces. -/
def old : Goroutine → Option Nat
  | .reloading _ oldInst _ => some oldInst.process
  | .launched _ oldInst _ _ => some oldInst.process
  | .draining old => some old.process
  | .drained old => some old.process
  | _ => none

def isHolding (process : Nat) : Goroutine → Bool
  | .holding other => other == process
  | _ => false

/-- The goroutine is counted in the active calls of the process. -/
def isActive (process : Nat) : Goroutine → Bool
  | .counted other => other == process
  | .calling other => other == process
  | .returned other => other == process
  | _ => false

def isDrained (process : Nat) : Goroutine → Bool
  | .drained old => old.process == process
  | _ => false

end Goroutine

namespace System

variable {s s' : System} {before after : List Goroutine} {goroutine : Goroutine} {event : Event}

/-! ## Identities -/

def pendings (goroutines : List Goroutine) : List PluginInstance :=
  goroutines.filterMap Goroutine.pending

/-- An instance is installed once, and only installed ones are replaced or closed. -/
structure Identified (s : System) : Prop where
  processes : ∀ inst ∈ s.made, inst.process < s.objects
  adapters : ∀ inst ∈ s.made, ∀ id a, inst.adapters.lookup id = some a →
    a.id = id ∧ a.object < s.objects
  apart : ∀ inst ∈ s.made, ∀ other ∈ s.made, ∀ id a, inst.adapters.lookup id = some a →
    other.adapters.lookup id = some a → inst.process = other.process
  distinct : ((pendings s.goroutines).map (·.process)).Nodup
  pending : ∀ inst ∈ pendings s.goroutines, inst ∈ s.made ∧ inst.process ∉ s.installed
  installed : ∀ process ∈ s.installed, process < s.objects
  old : ∀ goroutine ∈ s.goroutines, ∀ process ∈ goroutine.old, process ∈ s.installed
  tracked : ∀ pluginID inst, s.manager.instances.lookup pluginID = some inst →
    inst.process ∈ s.installed
  closed : ∀ process ∈ s.closed, process ∈ s.installed

theorem identified_initial : initial.Identified where
  processes _ member := absurd member List.not_mem_nil
  adapters _ member := absurd member List.not_mem_nil
  apart _ member := absurd member List.not_mem_nil
  distinct := List.nodup_nil
  pending _ member := absurd member List.not_mem_nil
  installed _ member := absurd member List.not_mem_nil
  old _ member := absurd member List.not_mem_nil
  tracked _ _ found := by cases found
  closed _ member := absurd member List.not_mem_nil

theorem forall_mem_replace {property : Goroutine → Prop} {next : List Goroutine}
    (old : ∀ g ∈ before ++ goroutine :: after, property g) (new : ∀ g ∈ next, property g) :
    ∀ g ∈ before ++ next ++ after, property g := by
  intro g member
  rw [List.mem_append, List.mem_append] at member
  rcases member with (left | isNext) | right
  · exact old g (List.mem_append_left _ left)
  · exact new g isNext
  · exact old g (List.mem_append_right _ (List.mem_cons_of_mem _ right))

/-- A step that only changes the goroutines, without a new pending or old instance. -/
theorem Identified.replace (identified : s.Identified)
    (parts : s.goroutines = before ++ goroutine :: after) {next : List Goroutine}
    (samePending : next.filterMap Goroutine.pending = goroutine.pending.toList)
    (sameOld : ∀ g ∈ next, ∀ process ∈ g.old, process ∈ goroutine.old) :
    (s.replace before next after).Identified := by
  have pendings_eq : pendings (before ++ next ++ after) = pendings s.goroutines := by
    rw [parts]
    simp only [pendings, List.filterMap_append, samePending, List.filterMap_cons]
    cases goroutine.pending <;> simp
  refine { identified with
    distinct := pendings_eq ▸ identified.distinct
    pending := fun inst member => identified.pending inst (pendings_eq ▸ member)
    old := ?_ }
  have old := identified.old
  rw [parts] at old
  exact forall_mem_replace old fun g member process isOld =>
    old goroutine (List.mem_append_right _ List.mem_cons_self) process
      (sameOld g member process isOld)

/-- `startInstance` hands out an instance with new identities. -/
theorem Identified.launch (identified : s.Identified)
    (parts : s.goroutines = before ++ goroutine :: after) (nothing : goroutine.pending = none)
    (binaryPath : String) (desc : PluginDescriptor) {launched : Goroutine}
    (isNew : launched.pending = some (newInstance s.objects binaryPath desc))
    (sameOld : ∀ process ∈ launched.old, process ∈ goroutine.old) :
    ((s.make (newInstance s.objects binaryPath desc) desc).replace before [launched]
      after).Identified := by
  rcases newInstance_adapters s.objects binaryPath desc with ⟨spec, _⟩
  have grows : s.objects < objectsAfter s.objects desc := by
    unfold objectsAfter
    omega
  have pendings_perm : (pendings (before ++ [launched] ++ after)).Perm
      (newInstance s.objects binaryPath desc :: pendings s.goroutines) := by
    rw [parts]
    simp only [pendings, List.filterMap_append, List.filterMap_cons, isNew, nothing,
      List.filterMap_nil, List.append_assoc, List.singleton_append]
    exact List.perm_middle
  have old := identified.old
  rw [parts] at old
  refine ⟨?_, ?_, fun inst member other alsoMember id a isIn alsoIn => ?_, ?_,
    fun inst member => ?_, fun process member => (identified.installed process member).trans grows,
    forall_mem_replace old fun g member process isOld => ?_, identified.tracked, identified.closed⟩
  · exact List.forall_mem_cons.mpr ⟨grows, fun inst member =>
      (identified.processes inst member).trans grows⟩
  · refine List.forall_mem_cons.mpr ⟨fun id a isIn => ⟨(spec id a isIn).1.id,
      (spec id a isIn).2.2⟩, fun inst member id a isIn => ?_⟩
    have known := identified.adapters inst member id a isIn
    exact ⟨known.1, known.2.trans grows⟩
  · rcases List.mem_cons.mp member with rfl | member <;>
      rcases List.mem_cons.mp alsoMember with rfl | alsoMember
    · rfl
    · exact absurd (identified.adapters other alsoMember id a alsoIn).2
        (not_lt.mpr (spec id a isIn).2.1)
    · exact absurd (identified.adapters inst member id a isIn).2
        (not_lt.mpr (spec id a alsoIn).2.1)
    · exact identified.apart inst member other alsoMember id a isIn alsoIn
  · refine (pendings_perm.map (·.process)).nodup_iff.mpr (List.nodup_cons.mpr ⟨fun member => ?_,
      identified.distinct⟩)
    rcases List.mem_map.mp member with ⟨inst, waits, same⟩
    exact absurd (identified.processes inst (identified.pending inst waits).1)
      (not_lt.mpr (le_of_eq same.symm))
  · rcases List.mem_cons.mp (pendings_perm.mem_iff.mp member) with rfl | waits
    · exact ⟨List.mem_cons_self, fun isIn => lt_irrefl _ (identified.installed _ isIn)⟩
    · exact ⟨List.mem_cons_of_mem _ (identified.pending inst waits).1,
        (identified.pending inst waits).2⟩
  · cases List.mem_singleton.mp member
    exact old goroutine (List.mem_append_right _ List.mem_cons_self) process
      (sameOld process isOld)

/-- A pending instance is installed. -/
theorem Identified.install (identified : s.Identified)
    (parts : s.goroutines = before ++ goroutine :: after) {inst : PluginInstance}
    (waits : goroutine.pending = some inst) {next : List Goroutine}
    (nothing : next.filterMap Goroutine.pending = [])
    (sameOld : ∀ g ∈ next, ∀ process ∈ g.old, process ∈ goroutine.old)
    (made : s'.made = s.made) (objects : s'.objects = s.objects)
    (installed : s'.installed = inst.process :: s.installed)
    (goroutines : s'.goroutines = before ++ next ++ after)
    (tracked : ∀ pluginID other, s'.manager.instances.lookup pluginID = some other →
      other = inst ∨ s.manager.instances.lookup pluginID = some other)
    (closed : ∀ process ∈ s'.closed, process ∈ s.installed) : s'.Identified := by
  have pendings_perm : (pendings s.goroutines).Perm (inst :: pendings s'.goroutines) := by
    rw [parts, goroutines]
    simp only [pendings, List.filterMap_append, List.filterMap_cons, waits, nothing,
      List.append_nil]
    exact List.perm_middle
  have distinct := (pendings_perm.map (·.process)).nodup_iff.mp identified.distinct
  rw [List.map_cons, List.nodup_cons] at distinct
  have old := identified.old
  rw [parts] at old
  refine ⟨made ▸ objects ▸ identified.processes, made ▸ objects ▸ identified.adapters,
    made ▸ identified.apart, distinct.2, fun other member => ?_, ?_, ?_,
    fun pluginID other found => ?_, fun process member => ?_⟩
  · have waited := identified.pending other
      (pendings_perm.mem_iff.mpr (List.mem_cons_of_mem _ member))
    rw [made, installed, List.mem_cons, not_or]
    refine ⟨waited.1, fun same => ?_, waited.2⟩
    exact distinct.1 (List.mem_map.mpr ⟨other, member, same⟩)
  · have waited := identified.pending inst (pendings_perm.mem_iff.mpr List.mem_cons_self)
    rw [installed, objects]
    exact List.forall_mem_cons.mpr ⟨identified.processes inst waited.1, identified.installed⟩
  · rw [goroutines, installed]
    refine forall_mem_replace (fun g member process isOld => List.mem_cons_of_mem _
      (old g member process isOld)) fun g member process isOld => List.mem_cons_of_mem _ ?_
    exact old goroutine (List.mem_append_right _ List.mem_cons_self) process
      (sameOld g member process isOld)
  · rw [installed]
    rcases tracked pluginID other found with rfl | found
    · exact List.mem_cons_self
    · exact List.mem_cons_of_mem _ (identified.tracked pluginID other found)
  · rw [installed]
    exact List.mem_cons_of_mem _ (closed process member)

theorem Identified.advances (identified : s.Identified)
    (parts : s.goroutines = before ++ goroutine :: after)
    (advances : Advances s before after goroutine event s') : s'.Identified := by
  cases advances with
  | startFails binaryPath => exact identified.replace parts rfl (by simp)
  | startLaunches binaryPath desc =>
      exact identified.launch parts rfl binaryPath desc rfl fun _ => id
  | startInstalls binaryPath inst =>
      refine identified.install parts rfl rfl (by simp) rfl rfl rfl rfl
        (fun pluginID other found => ?_) fun process member => ?_
      · change (s.manager.instances.insert inst.pluginID inst).lookup pluginID = some other at found
        rw [Map.lookup_insert] at found
        split at found
        · exact .inl (Option.some_inj.mp found).symm
        · exact .inr found
      · rcases List.mem_append.mp member with wasTracked | wasClosed
        · rcases List.mem_map.mp wasTracked with ⟨old, isOld, rfl⟩
          exact identified.tracked _ old (Option.mem_toList.mp isOld)
        · exact identified.closed process wasClosed
  | reloadFails pluginID oldInst binaryPath => exact identified.replace parts rfl (by simp)
  | reloadLaunches pluginID oldInst binaryPath desc =>
      exact identified.launch parts rfl binaryPath desc rfl fun _ => id
  | reloadSwaps pluginID oldInst binaryPath newInst =>
      refine identified.install parts rfl rfl ?_ rfl rfl rfl rfl
        (fun other inst found => ?_) identified.closed
      · intro g member process isOld
        cases List.mem_singleton.mp member
        exact isOld
      · change (s.manager.instances.insert pluginID newInst).lookup other = some inst at found
        rw [Map.lookup_insert] at found
        split at found
        · exact .inl (Option.some_inj.mp found).symm
        · exact .inr found
  | drains old idle => exact identified.replace parts rfl (by simp [Goroutine.old])
  | givesUp old => exact identified.replace parts rfl (by simp [Goroutine.old])
  | closes old =>
      have kept := @identified.replace _ before after _ parts [] rfl (by simp)
      refine { kept with closed := List.forall_mem_cons.mpr ⟨?_, identified.closed⟩ }
      have isOld := identified.old
      rw [parts] at isOld
      exact isOld _ (List.mem_append_right _ List.mem_cons_self) _ rfl
  | counts process =>
      exact { @identified.replace _ before after _ parts [.counted process] rfl
        (by simp [Goroutine.old]) with }
  | calls process => exact identified.replace parts rfl (by simp [Goroutine.old])
  | returns process => exact identified.replace parts rfl (by simp [Goroutine.old])
  | finishes process => exact { @identified.replace _ before after _ parts [] rfl (by simp) with }

/-- A new goroutine that brings no pending instance. -/
theorem Identified.push (identified : s.Identified) {goroutine : Goroutine}
    (nothing : goroutine.pending = none) (old : ∀ process ∈ goroutine.old, process ∈ s.installed) :
    ({ s with goroutines := goroutine :: s.goroutines } : System).Identified := by
  have same : pendings (goroutine :: s.goroutines) = pendings s.goroutines := by
    rw [pendings, List.filterMap_cons, nothing]
    rfl
  exact { identified with
    distinct := same ▸ identified.distinct
    pending := fun inst member => identified.pending inst (same ▸ member)
    old := List.forall_mem_cons.mpr ⟨old, identified.old⟩ }

theorem Identified.step {action : Action} (identified : s.Identified)
    (taken : System.step s action = some s') : s'.Identified := by
  cases step_cases taken with
  | starts binaryPath => exact identified.push rfl (by simp [Goroutine.old])
  | reloads binaryPath tracked =>
      refine identified.push rfl fun process isOld => ?_
      cases isOld
      exact identified.tracked _ _ tracked
  | looksUp found owned => exact identified.push rfl (by simp [Goroutine.old])
  | rejects => exact identified
  | @stops pluginID inst isTracked =>
      refine { identified with
        tracked := fun other kept found => ?_
        closed := List.forall_mem_cons.mpr
          ⟨identified.tracked pluginID inst isTracked, identified.closed⟩ }
      change (s.manager.instances.erase pluginID).lookup other = some kept at found
      rw [Map.lookup_erase] at found
      split at found
      · contradiction
      · exact identified.tracked other kept found
  | advances focused advances => exact identified.advances (focus_eq focused) advances

/-! ## Active calls -/

/-- Each counter is the number of callers between `startCall` and `done`. -/
def Counted (s : System) : Prop :=
  ∀ process, s.activeCalls process = (s.goroutines.countP (Goroutine.isActive process) : Int)

theorem countP_replace (before after next : List Goroutine) (goroutine : Goroutine)
    (property : Goroutine → Bool) :
    (before ++ next ++ after).countP property + [goroutine].countP property =
      (before ++ goroutine :: after).countP property + next.countP property := by
  simp only [List.countP_append, List.countP_cons, List.countP_nil]
  omega

theorem Counted.replace (counted : s.Counted)
    (parts : s.goroutines = before ++ goroutine :: after) {next : List Goroutine}
    (goroutines : s'.goroutines = before ++ next ++ after)
    (changed : ∀ process, s'.activeCalls process + [goroutine].countP (Goroutine.isActive process) =
      s.activeCalls process + next.countP (Goroutine.isActive process)) : s'.Counted := by
  intro process
  have count := countP_replace before after next goroutine (Goroutine.isActive process)
  have old := counted process
  have change := changed process
  rw [goroutines]
  rw [parts] at old
  omega

theorem addCalls_eq (s : System) (process other : Nat) (n : Int) :
    s.addCalls process n other = s.activeCalls other + if process = other then n else 0 := by
  rw [addCalls, Function.update_apply]
  by_cases same : other = process
  · simp [same]
  · simp [same, Ne.symm same]

theorem Counted.advances (counted : s.Counted)
    (parts : s.goroutines = before ++ goroutine :: after)
    (advances : Advances s before after goroutine event s') : s'.Counted := by
  cases advances with
  | startFails => exact counted.replace parts rfl fun _ => rfl
  | startLaunches => exact counted.replace parts rfl fun _ => rfl
  | startInstalls => exact counted.replace parts rfl fun _ => rfl
  | reloadFails => exact counted.replace parts rfl fun _ => rfl
  | reloadLaunches => exact counted.replace parts rfl fun _ => rfl
  | reloadSwaps => exact counted.replace parts rfl fun _ => rfl
  | drains => exact counted.replace parts rfl fun _ => rfl
  | givesUp => exact counted.replace parts rfl fun _ => rfl
  | closes => exact counted.replace parts rfl fun _ => rfl
  | calls => exact counted.replace parts rfl fun _ => rfl
  | returns => exact counted.replace parts rfl fun _ => rfl
  | counts process =>
      refine counted.replace parts rfl fun other => ?_
      simp only [addCalls_eq, List.countP_cons, List.countP_nil, Goroutine.isActive, beq_iff_eq]
      split <;> simp
  | finishes process =>
      refine counted.replace parts rfl fun other => ?_
      simp only [addCalls_eq, List.countP_cons, List.countP_nil, Goroutine.isActive, beq_iff_eq]
      split
      · push_cast
        omega
      · simp

theorem Counted.step {action : Action} (counted : s.Counted)
    (taken : System.step s action = some s') : s'.Counted := by
  cases step_cases taken with
  | starts => exact counted
  | reloads => exact counted
  | looksUp => exact counted
  | rejects => exact counted
  | stops => exact counted
  | advances focused advances => exact counted.advances (focus_eq focused) advances

/-! ## Retired instances -/

/-- The drain of the instance has ended. -/
def Retired (s : System) (process : Nat) : Prop :=
  process ∈ s.closed ∨ ∃ goroutine ∈ s.goroutines, goroutine.isDrained process = true

/-- The registry has none of the adapters of the process. -/
def Unrouted (s : System) (process : Nat) : Prop :=
  ∀ inst ∈ s.made, inst.process = process → ∀ id a, inst.adapters.lookup id = some a →
    s.manager.registry.Lacks a

/-- Nobody uses a retired instance, and nobody can find it. -/
structure Unused (s : System) : Prop where
  sound : s.manager.registry.Sound
  callers : ∀ process, s.Retired process → ∀ goroutine ∈ s.goroutines,
    goroutine.isHolding process = false ∧ goroutine.isActive process = false
  unrouted : ∀ process, s.Retired process → s.Unrouted process

/-- The actions of callers and of reloads, with no drain that reaches its deadline and a
`Start` only for a plugin that is not tracked. -/
def onlyReloads (s : System) : Action → Bool
  | .stop _ => false
  | .advance _ .timeout => false
  | .advance position .next =>
      match focus position s.goroutines with
      | some (_, .started _ inst, _) => (s.manager.instances.lookup inst.pluginID).isNone
      | _ => true
  | _ => true

/-- When a drain finds no active call, no caller holds an adapter of the instance that it has
not counted yet, and no candidate of the registry is one. -/
def drainsUnused (s : System) : Action → Bool
  | .advance position .next =>
      match focus position s.goroutines with
      | some (_, .draining old, _) =>
          s.goroutines.all (fun goroutine => !goroutine.isHolding old.process) &&
            s.manager.registry.candidates.entries.all fun entry =>
              entry.2.all fun c => s.owner c.provider != some old.process
      | _ => true
  | _ => true

/-- No remote call is under way on a closed instance. -/
def Safe (s : System) : Prop :=
  ∀ process ∈ s.closed, Goroutine.calling process ∉ s.goroutines

theorem Identified.owner_eq (identified : s.Identified) {inst : PluginInstance}
    (made : inst ∈ s.made) {id : String} {a : Provider} (isIn : inst.adapters.lookup id = some a) :
    s.owner a = some inst.process := by
  have own : inst.adapters.lookup a.id = some a := by
    rwa [(identified.adapters inst made id a isIn).1]
  cases found : s.made.find? fun inst => inst.adapters.lookup a.id = some a with
  | none => exact absurd (decide_eq_true own) (List.find?_eq_none.mp found inst made)
  | some other =>
      have alsoIn : other.adapters.lookup a.id = some a := by simpa using List.find?_some found
      rw [owner, found, Option.map_some, identified.apart inst made other
        (List.mem_of_find?_eq_some found) a.id a own alsoIn]

theorem exists_of_owner {a : Provider} {process : Nat} (owned : s.owner a = some process) :
    ∃ inst ∈ s.made, inst.process = process ∧ inst.adapters.lookup a.id = some a := by
  rcases Option.map_eq_some_iff.mp owned with ⟨inst, found, same⟩
  have isIn : inst.adapters.lookup a.id = some a := by simpa using List.find?_some found
  exact ⟨inst, List.mem_of_find?_eq_some found, same, isIn⟩

theorem Identified.installed_of_retired (identified : s.Identified) {process : Nat}
    (retired : s.Retired process) : process ∈ s.installed := by
  rcases retired with closed | ⟨goroutine, member, isDrained⟩
  · exact identified.closed process closed
  · cases goroutine with
    | drained old =>
        cases beq_iff_eq.mp isDrained
        exact identified.old _ member _ rfl
    | _ => contradiction

/-- A goroutine moves on without taking up an instance, and nothing more is retired. -/
theorem Unused.replace (unused : s.Unused)
    (parts : s.goroutines = before ++ goroutine :: after) {next : List Goroutine}
    (goroutines : s'.goroutines = before ++ next ++ after) (sound : s'.manager.registry.Sound)
    (retired : ∀ process, s'.Retired process → s.Retired process)
    (uses : ∀ g ∈ next, ∀ process,
      goroutine.isHolding process = false ∧ goroutine.isActive process = false →
        g.isHolding process = false ∧ g.isActive process = false)
    (unrouted : ∀ process, s.Retired process → s.Unrouted process → s'.Unrouted process) :
    s'.Unused := by
  refine ⟨sound, fun process isRetired => ?_, fun process isRetired => ?_⟩
  · have old := unused.callers process (retired process isRetired)
    rw [parts] at old
    rw [goroutines]
    exact forall_mem_replace old fun g member =>
      uses g member process (old goroutine (List.mem_append_right _ List.mem_cons_self))
  · exact unrouted process (retired process isRetired)
      (unused.unrouted process (retired process isRetired))

/-- What is retired after a step that closes nothing. -/
theorem Retired.of_replace {process : Nat} {next : List Goroutine} (retired : s'.Retired process)
    (parts : s.goroutines = before ++ goroutine :: after)
    (goroutines : s'.goroutines = before ++ next ++ after) (closed : s'.closed = s.closed) :
    s.Retired process ∨ ∃ g ∈ next, g.isDrained process = true := by
  rcases retired with isClosed | ⟨g, member, isDrained⟩
  · exact .inl (.inl (closed ▸ isClosed))
  · rw [goroutines, List.mem_append, List.mem_append] at member
    have old (isIn : g ∈ before ++ goroutine :: after) : s.Retired process :=
      .inr ⟨g, parts ▸ isIn, isDrained⟩
    rcases member with (left | isNext) | right
    · exact .inl (old (List.mem_append_left _ left))
    · exact .inr ⟨g, isNext, isDrained⟩
    · exact .inl (old (List.mem_append_right _ (List.mem_cons_of_mem _ right)))

/-- Registering a pending instance leads to no retired one. -/
theorem Unrouted.install (identified : s.Identified) (sound : s.manager.registry.Sound)
    (parts : s.goroutines = before ++ goroutine :: after) {inst : PluginInstance}
    (waits : goroutine.pending = some inst) {process : Nat} (retired : s.Retired process)
    (unrouted : s.Unrouted process) (made : s'.made = s.made)
    (registry : s'.manager.registry =
      PluginManager.registerAdapters s.manager.registry inst) : s'.Unrouted process := by
  have isPending : inst ∈ pendings s.goroutines := by
    rw [parts]
    exact List.mem_filterMap.mpr ⟨goroutine, List.mem_append_right _ List.mem_cons_self, waits⟩
  rcases identified.pending inst isPending with ⟨isMade, notInstalled⟩
  intro other member same id a isIn
  rw [made] at member
  rw [registry]
  refine State.lacks_registerAdapters sound (unrouted other member same id a isIn) ?_
  intro key alsoIn
  have own := (identified.adapters inst isMade key a alsoIn).1
  have otherOwn := (identified.adapters other member id a isIn).1
  have shared := identified.apart inst isMade other member id a
    (by rwa [← otherOwn, own]) isIn
  rw [shared, same] at notInstalled
  exact notInstalled (identified.installed_of_retired retired)

theorem Identified.unrouted_make (identified : s.Identified) {process : Nat}
    (retired : s.Retired process) (unrouted : s.Unrouted process) {inst : PluginInstance}
    (isNew : inst.process = s.objects) (made : s'.made = inst :: s.made)
    (registry : s'.manager.registry = s.manager.registry) : s'.Unrouted process := by
  intro other member same
  rw [registry]
  rw [made] at member
  rcases List.mem_cons.mp member with rfl | member
  · rw [← same, isNew] at retired
    exact absurd (identified.installed _ (identified.installed_of_retired retired)) (lt_irrefl _)
  · exact unrouted other member same

theorem Unused.advances (unused : s.Unused) (identified : s.Identified) (counted : s.Counted)
    (parts : s.goroutines = before ++ goroutine :: after)
    (advances : Advances s before after goroutine event s') (inTime : event ≠ .timeout)
    (untracked : ∀ binaryPath inst, goroutine = .started binaryPath inst →
      s.manager.instances.lookup inst.pluginID = none)
    (drainsUnused : ∀ old, goroutine = .draining old →
      (∀ g ∈ s.goroutines, g.isHolding old.process = false) ∧ s.Unrouted old.process) :
    s'.Unused := by
  have keeps {next : List Goroutine} {process : Nat} (nobody : ∀ g ∈ next, g.isDrained process = false)
      (retired : s.Retired process ∨ ∃ g ∈ next, g.isDrained process = true) :
      s.Retired process := by
    rcases retired with retired | ⟨g, member, isDrained⟩
    · exact retired
    · exact absurd isDrained (by simp [nobody g member])
  cases advances with
  | startFails binaryPath =>
      exact unused.replace parts rfl unused.sound
        (fun process retired => keeps (by simp) (retired.of_replace parts rfl rfl)) (by simp)
        fun _ _ => id
  | reloadFails pluginID oldInst binaryPath =>
      exact unused.replace parts rfl unused.sound
        (fun process retired => keeps (by simp) (retired.of_replace parts rfl rfl)) (by simp)
        fun _ _ => id
  | startLaunches binaryPath desc =>
      exact unused.replace parts rfl unused.sound
        (fun process retired => keeps (by simp [Goroutine.isDrained])
          (retired.of_replace parts rfl rfl)) (by simp [Goroutine.isHolding, Goroutine.isActive])
        fun process retired unrouted => identified.unrouted_make retired unrouted rfl rfl rfl
  | reloadLaunches pluginID oldInst binaryPath desc =>
      exact unused.replace parts rfl unused.sound
        (fun process retired => keeps (by simp [Goroutine.isDrained])
          (retired.of_replace parts rfl rfl)) (by simp [Goroutine.isHolding, Goroutine.isActive])
        fun process retired unrouted => identified.unrouted_make retired unrouted rfl rfl rfl
  | startInstalls binaryPath inst =>
      have fresh := untracked binaryPath inst rfl
      have registry : (s.manager.startInstalled binaryPath inst).1.registry =
          PluginManager.registerAdapters s.manager.registry inst := by
        rw [PluginManager.startInstalled, fresh]
      refine unused.replace parts rfl ?_ (fun process retired => ?_) (by simp)
        fun process retired unrouted => unrouted.install identified unused.sound parts rfl retired
          rfl registry
      · change (s.manager.startInstalled binaryPath inst).1.registry.Sound
        rw [registry]
        exact Registry.sound_registerAll unused.sound _
      · refine keeps (by simp) (retired.of_replace parts rfl ?_)
        rw [fresh]
        rfl
  | reloadSwaps pluginID oldInst binaryPath newInst =>
      exact unused.replace parts rfl (Registry.sound_registerAll unused.sound _)
        (fun process retired => keeps (by simp [Goroutine.isDrained])
          (retired.of_replace parts rfl rfl)) (by simp [Goroutine.isHolding, Goroutine.isActive])
        fun process retired unrouted => unrouted.install identified unused.sound parts rfl retired
          rfl rfl
  | givesUp old => exact absurd rfl inTime
  | drains old idle =>
      rcases drainsUnused old rfl with ⟨nobodyHolds, unroutedOld⟩
      have nobodyCalls : ∀ g ∈ s.goroutines, g.isActive old.process = false := by
        have none : s.goroutines.countP (Goroutine.isActive old.process) = 0 := by
          have count := counted old.process
          omega
        exact fun g member => Bool.eq_false_iff.mpr (List.countP_eq_zero.mp none g member)
      have split : ∀ process, (s.replace before [.drained old] after).Retired process →
          s.Retired process ∨ process = old.process := by
        intro process retired
        rcases retired.of_replace parts rfl rfl with retired | ⟨g, member, isDrained⟩
        · exact .inl retired
        · cases List.mem_singleton.mp member
          exact .inr (beq_iff_eq.mp isDrained).symm
      refine ⟨unused.sound, fun process retired => ?_, fun process retired => ?_⟩
      · have unusedBefore : ∀ g ∈ s.goroutines,
            g.isHolding process = false ∧ g.isActive process = false := by
          rcases split process retired with retired | rfl
          · exact unused.callers process retired
          · exact fun g member => ⟨nobodyHolds g member, nobodyCalls g member⟩
        rw [parts] at unusedBefore
        exact forall_mem_replace unusedBefore (by simp [Goroutine.isHolding, Goroutine.isActive])
      · rcases split process retired with retired | rfl
        · exact unused.unrouted process retired
        · exact unroutedOld
  | closes old =>
      refine unused.replace parts rfl unused.sound (fun process retired => ?_) (by simp)
        fun _ _ => id
      have wasDrained : s.Retired old.process := by
        refine .inr ⟨.drained old, ?_, beq_self_eq_true _⟩
        rw [parts]
        exact List.mem_append_right _ List.mem_cons_self
      rcases retired with closed | ⟨g, member, isDrained⟩
      · rcases List.mem_cons.mp closed with rfl | closed
        · exact wasDrained
        · exact .inl closed
      · refine .inr ⟨g, ?_, isDrained⟩
        rw [parts]
        rw [List.append_nil] at member
        rcases List.mem_append.mp member with left | right
        · exact List.mem_append_left _ left
        · exact List.mem_append_right _ (List.mem_cons_of_mem _ right)
  | counts process =>
      refine unused.replace parts rfl unused.sound
        (fun process retired => keeps (by simp [Goroutine.isDrained])
          (retired.of_replace parts rfl rfl)) ?_ fun _ _ => id
      simp [Goroutine.isHolding, Goroutine.isActive]
  | calls process =>
      refine unused.replace parts rfl unused.sound
        (fun process retired => keeps (by simp [Goroutine.isDrained])
          (retired.of_replace parts rfl rfl)) ?_ fun _ _ => id
      simp [Goroutine.isHolding, Goroutine.isActive]
  | returns process =>
      refine unused.replace parts rfl unused.sound
        (fun process retired => keeps (by simp [Goroutine.isDrained])
          (retired.of_replace parts rfl rfl)) ?_ fun _ _ => id
      simp [Goroutine.isHolding, Goroutine.isActive]
  | finishes process =>
      exact unused.replace parts rfl unused.sound
        (fun process retired => keeps (by simp) (retired.of_replace parts rfl rfl)) (by simp)
        fun _ _ => id

theorem Unused.push (unused : s.Unused) {goroutine : Goroutine}
    (notDrained : ∀ process, goroutine.isDrained process = false)
    (uses : ∀ process, s.Retired process →
      goroutine.isHolding process = false ∧ goroutine.isActive process = false) :
    ({ s with goroutines := goroutine :: s.goroutines } : System).Unused := by
  have same : ∀ process, ({ s with goroutines := goroutine :: s.goroutines } : System).Retired
      process → s.Retired process := by
    rintro process (closed | ⟨g, member, isDrained⟩)
    · exact .inl closed
    · rcases List.mem_cons.mp member with rfl | member
      · exact absurd isDrained (by simp [notDrained])
      · exact .inr ⟨g, member, isDrained⟩
  refine ⟨unused.sound, fun process retired => List.forall_mem_cons.mpr
    ⟨uses process (same process retired), unused.callers process (same process retired)⟩,
    fun process retired => unused.unrouted process (same process retired)⟩

theorem Identified.unrouted_of_owner (identified : s.Identified) {process : Nat}
    (nobody : ∀ entry ∈ s.manager.registry.candidates.entries, ∀ c ∈ entry.2,
      s.owner c.provider ≠ some process) : s.Unrouted process := by
  rintro inst made rfl id a isIn baseID c member rfl
  cases found : s.manager.registry.candidates.lookup baseID with
  | none =>
      rw [Registry.candidatesOf, found] at member
      exact List.not_mem_nil member
  | some list =>
      rw [Registry.candidatesOf, found] at member
      exact nobody ⟨baseID, list⟩ (AList.mem_lookup_iff.mp found) c member
        (identified.owner_eq made isIn)

theorem Unused.step {action : Action} (unused : s.Unused) (identified : s.Identified)
    (counted : s.Counted) (reloads : s.onlyReloads action = true)
    (drains : s.drainsUnused action = true) (taken : System.step s action = some s') :
    s'.Unused := by
  cases step_cases taken with
  | starts binaryPath =>
      exact unused.push (fun _ => rfl) fun _ _ => ⟨rfl, rfl⟩
  | reloads binaryPath tracked =>
      exact unused.push (fun _ => rfl) fun _ _ => ⟨rfl, rfl⟩
  | rejects => exact unused
  | stops tracked => contradiction
  | @looksUp table handle a process found owned =>
      refine unused.push (fun _ => rfl) fun other retired => ⟨?_, rfl⟩
      refine beq_eq_false_iff_ne.mpr ?_
      rintro rfl
      rcases exists_of_owner owned with ⟨inst, made, same, isIn⟩
      rcases unused.sound.current.present table handle a found with ⟨baseID, _, c, listed, holds⟩
      exact unused.unrouted _ retired inst made same a.id a isIn baseID c listed holds
  | @advances position event before goroutine after s' focused advances =>
      refine unused.advances identified counted (focus_eq focused) advances ?_ ?_ ?_
      · rintro rfl
        contradiction
      · rintro binaryPath inst rfl
        cases advances
        simpa [onlyReloads, focused] using reloads
      · rintro old rfl
        cases event with
        | launch desc => cases advances
        | timeout => contradiction
        | next =>
            simp only [drainsUnused, focused, Bool.and_eq_true] at drains
            refine ⟨fun g member => ?_, identified.unrouted_of_owner fun entry member c listed => ?_⟩
            · simpa using List.all_eq_true.mp drains.1 g member
            · simpa using List.all_eq_true.mp (List.all_eq_true.mp drains.2 entry member) c listed

/-- The invariant of the runs in which every drain ends unused. -/
structure ReloadInvariant (s : System) : Prop where
  identified : s.Identified
  counted : s.Counted
  unused : s.Unused

theorem reloadInvariant_initial : initial.ReloadInvariant where
  identified := identified_initial
  counted _ := rfl
  unused := by
    refine ⟨Registry.sound_new, fun process retired => ?_, fun process retired => ?_⟩
    · exact fun _ member => absurd member List.not_mem_nil
    · exact fun _ member => absurd member List.not_mem_nil

/-- In every run of callers and reloads in which each drain ends with its instance unused, no
remote call is issued on a closed instance and none is closed under a call. -/
theorem safe_of_drainsUnused {actions : List Action}
    (run : Run System.step
      (fun s action => (s.onlyReloads action && s.drainsUnused action) = true) initial actions s) :
    s.Safe := by
  have invariant : s.ReloadInvariant := by
    apply run.invariant ReloadInvariant _ reloadInvariant_initial
    intro s action s' permitted invariant taken
    rcases Bool.and_eq_true_iff.mp permitted with ⟨reloads, drains⟩
    exact ⟨invariant.identified.step taken, invariant.counted.step taken,
      invariant.unused.step invariant.identified invariant.counted reloads drains taken⟩
  intro process closed calling
  have idle := (invariant.unused.callers process (.inl closed) _ calling).2
  simp [Goroutine.isActive] at idle

/-- A call that is counted before the swap is waited for. -/
theorem safe_of_drainsUnused_counted_call :
    ∃ s, Run System.step
      (fun s action => (s.onlyReloads action && s.drainsUnused action) = true) initial (starting ++
        [.lookUp .content "fox", .advance 0 .next, .reload "pack",
          .advance 0 (.launch (some pack)), .advance 0 .next, .advance 1 .next, .advance 1 .next,
          .advance 1 .next, .advance 0 .next, .advance 0 .next]) s ∧
      s.closed = [0] ∧ s.Safe := by
  have ran : (Run.execute System.step
      (fun s action => s.onlyReloads action && s.drainsUnused action) initial (starting ++
        [.lookUp .content "fox", .advance 0 .next, .reload "pack",
          .advance 0 (.launch (some pack)), .advance 0 .next, .advance 1 .next, .advance 1 .next,
          .advance 1 .next, .advance 0 .next, .advance 0 .next])).map (·.closed) = some [0] := by
    decide +kernel
  rcases Option.map_eq_some_iff.mp ran with ⟨s, executed, closed⟩
  have run := Run.ofExecute executed
  exact ⟨s, run, closed, safe_of_drainsUnused run⟩

/-- The drain and the close fall between a caller's look-up and its `startCall`. -/
theorem call_on_closed_instance :
    ¬ ∀ (actions : List Action) (s : System),
      Run System.step (fun s action => s.onlyReloads action = true) initial actions s → s.Safe := by
  intro always
  have ran : (Run.execute System.step onlyReloads initial (starting ++
      [.lookUp .content "fox", .reload "pack", .advance 0 (.launch (some pack)),
        .advance 0 .next, .advance 0 .next, .advance 0 .next, .advance 0 .next,
        .advance 0 .next])).map (fun s => decide (0 ∈ s.closed ∧ Goroutine.calling 0 ∈ s.goroutines))
          = some true := by
    decide +kernel
  rcases Option.map_eq_some_iff.mp ran with ⟨s, executed, observed⟩
  rcases of_decide_eq_true observed with ⟨closed, calling⟩
  exact always _ s (Run.ofExecute executed) 0 closed calling

end System

end Kiyomi.Plugin.Host
