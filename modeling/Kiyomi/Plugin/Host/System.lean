import Kiyomi.Plugin.Host.Reload

namespace Kiyomi.Plugin.Host

open Go Provider

/-! # Concurrent calls of the manager and of its adapters

The goroutines interleave between the lock-protected sections of the manager, the starts of
instances and the steps of a call of an adapter. -/

inductive Goroutine
  /-- `Start` before `startInstance`. -/
  | starting (binaryPath : String)
  /-- `Start` before its locked section. -/
  | started (binaryPath : String) (inst : PluginInstance)
  /-- `Reload` before `startInstance`. -/
  | reloading (pluginID : String) (oldInst : PluginInstance) (binaryPath : String)
  /-- `Reload` before the swap. -/
  | launched (pluginID : String) (oldInst : PluginInstance) (binaryPath : String)
      (newInst : PluginInstance)
  /-- The background goroutine of `Reload` in `Drain`. -/
  | draining (old : PluginInstance)
  /-- The background goroutine before `Close`. -/
  | drained (old : PluginInstance)
  /-- A caller that has looked up an adapter of the process. -/
  | holding (process : Nat)
  /-- A caller after `startCall`. -/
  | counted (process : Nat)
  /-- A caller in its remote call. -/
  | calling (process : Nat)
  /-- A caller before `done`. -/
  | returned (process : Nat)
  deriving DecidableEq

/-- What happens to a goroutine. -/
inductive Event
  | next
  /-- The outcome of `startInstance`; a start that fails kills its process. -/
  | launch (desc : Option PluginDescriptor)
  /-- `Drain` reaches its deadline. -/
  | timeout
  deriving DecidableEq

structure System where
  manager : PluginManager
  objects : Nat
  /-- All instances that have been started. -/
  made : List PluginInstance
  /-- The processes of the instances that have been closed. -/
  closed : List Nat
  /-- The `ActiveCalls` of the instance with a process. -/
  activeCalls : Nat → Int
  goroutines : List Goroutine
  /-- The processes whose instances have been put under a plugin id. -/
  installed : List Nat
  /-- The plugins for which a `Stop` has returned nil, with no `Start` since. -/
  stopped : List String

namespace System

def initial : System where
  manager := .new
  objects := 0
  made := []
  closed := []
  activeCalls := fun _ => 0
  goroutines := []
  installed := []
  stopped := []

/-- The process that the clients of an adapter are connected to. -/
def owner (s : System) (a : Provider) : Option Nat :=
  (s.made.find? fun inst => inst.adapters.lookup a.id = some a).map (·.process)

def addCalls (s : System) (process : Nat) (n : Int) : Nat → Int :=
  Function.update s.activeCalls process (s.activeCalls process + n)

/-- One step of a goroutine that stands between others. -/
def advance (s : System) (before : List Goroutine) (goroutine : Goroutine)
    (after : List Goroutine) (event : Event) : Option System :=
  let becomes (s : System) (next : List Goroutine) : Option System :=
    some { s with goroutines := before ++ next ++ after }
  match goroutine, event with
  | .starting _, .launch none => becomes s []
  | .starting binaryPath, .launch (some desc) =>
      let inst := newInstance s.objects binaryPath desc
      becomes { s with objects := objectsAfter s.objects desc, made := inst :: s.made }
        [.started binaryPath inst]
  | .started binaryPath inst, .next =>
      let (manager, old) := s.manager.startInstalled binaryPath inst
      becomes
        { s with
          manager
          closed := old.toList.map (·.process) ++ s.closed
          installed := inst.process :: s.installed
          stopped := s.stopped.filter (· ≠ inst.pluginID) }
        []
  | .reloading _ _ _, .launch none => becomes s []
  | .reloading pluginID oldInst binaryPath, .launch (some desc) =>
      let newInst := newInstance s.objects binaryPath desc
      becomes { s with objects := objectsAfter s.objects desc, made := newInst :: s.made }
        [.launched pluginID oldInst binaryPath newInst]
  | .launched pluginID oldInst binaryPath newInst, .next =>
      becomes
        { s with
          manager := s.manager.reloadSwap pluginID binaryPath newInst
          installed := newInst.process :: s.installed }
        [.draining oldInst]
  | .draining old, .next => if s.activeCalls old.process ≤ 0 then becomes s [.drained old] else none
  | .draining old, .timeout => becomes s [.drained old]
  | .drained old, .next => becomes { s with closed := old.process :: s.closed } []
  | .holding process, .next =>
      becomes { s with activeCalls := s.addCalls process 1 } [.counted process]
  | .counted process, .next => becomes s [.calling process]
  | .calling process, .next => becomes s [.returned process]
  | .returned process, .next => becomes { s with activeCalls := s.addCalls process (-1) } []
  | _, _ => none

inductive Action
  | start (binaryPath : String)
  | stop (pluginID : String)
  | reload (pluginID : String)
  /-- A caller looks up a handle. -/
  | lookUp (table : Table) (handle : String)
  | advance (position : Nat) (event : Event)

def step : StepFunction System Action
  | s, .start binaryPath => some { s with goroutines := .starting binaryPath :: s.goroutines }
  | s, .stop pluginID =>
      match s.manager.stop pluginID with
      | none => some s
      | some (manager, inst) => some
          { s with
            manager
            closed := inst.process :: s.closed
            stopped := pluginID :: s.stopped }
  | s, .reload pluginID =>
      match s.manager.reloadRead pluginID with
      | none => some s
      | some (oldInst, binaryPath) => some
          { s with goroutines := .reloading pluginID oldInst binaryPath :: s.goroutines }
  | s, .lookUp table handle =>
      (((s.manager.registry.table table).lookup handle).bind s.owner).map fun process =>
        { s with goroutines := .holding process :: s.goroutines }
  | s, .advance position event =>
      (focus position s.goroutines).bind fun (before, goroutine, after) =>
        s.advance before goroutine after event

/-! ## What a step can do -/

variable {s s' : System} {before after : List Goroutine} {position : Nat}

/-- The goroutine at a position becomes `next`. -/
def replace (s : System) (before next after : List Goroutine) : System :=
  { s with goroutines := before ++ next ++ after }

/-- `startInstance` hands out an instance. -/
def make (s : System) (inst : PluginInstance) (desc : PluginDescriptor) : System :=
  { s with objects := objectsAfter s.objects desc, made := inst :: s.made }

/-- The step of one goroutine. -/
inductive Advances (s : System) (before after : List Goroutine) : Goroutine → Event → System → Prop
  | startFails (binaryPath) :
      Advances s before after (.starting binaryPath) (.launch none) (s.replace before [] after)
  | startLaunches (binaryPath desc) :
      Advances s before after (.starting binaryPath) (.launch (some desc))
        ((s.make (newInstance s.objects binaryPath desc) desc).replace before
          [.started binaryPath (newInstance s.objects binaryPath desc)] after)
  | startInstalls (binaryPath inst) :
      Advances s before after (.started binaryPath inst) .next
        { s with
          manager := (s.manager.startInstalled binaryPath inst).1
          closed := (s.manager.instances.lookup inst.pluginID).toList.map (·.process) ++ s.closed
          installed := inst.process :: s.installed
          stopped := s.stopped.filter (· ≠ inst.pluginID)
          goroutines := before ++ [] ++ after }
  | reloadFails (pluginID oldInst binaryPath) :
      Advances s before after (.reloading pluginID oldInst binaryPath) (.launch none)
        (s.replace before [] after)
  | reloadLaunches (pluginID oldInst binaryPath desc) :
      Advances s before after (.reloading pluginID oldInst binaryPath) (.launch (some desc))
        ((s.make (newInstance s.objects binaryPath desc) desc).replace before
          [.launched pluginID oldInst binaryPath (newInstance s.objects binaryPath desc)] after)
  | reloadSwaps (pluginID oldInst binaryPath newInst) :
      Advances s before after (.launched pluginID oldInst binaryPath newInst) .next
        { s with
          manager := s.manager.reloadSwap pluginID binaryPath newInst
          installed := newInst.process :: s.installed
          goroutines := before ++ [.draining oldInst] ++ after }
  | drains (old) (idle : s.activeCalls old.process ≤ 0) :
      Advances s before after (.draining old) .next (s.replace before [.drained old] after)
  | givesUp (old) :
      Advances s before after (.draining old) .timeout (s.replace before [.drained old] after)
  | closes (old) :
      Advances s before after (.drained old) .next
        { s with closed := old.process :: s.closed, goroutines := before ++ [] ++ after }
  | counts (process) :
      Advances s before after (.holding process) .next
        { s with
          activeCalls := s.addCalls process 1
          goroutines := before ++ [.counted process] ++ after }
  | calls (process) :
      Advances s before after (.counted process) .next
        (s.replace before [.calling process] after)
  | returns (process) :
      Advances s before after (.calling process) .next
        (s.replace before [.returned process] after)
  | finishes (process) :
      Advances s before after (.returned process) .next
        { s with
          activeCalls := s.addCalls process (-1)
          goroutines := before ++ [] ++ after }

theorem advances {goroutine : Goroutine} {event : Event}
    (taken : s.advance before goroutine after event = some s') :
    Advances s before after goroutine event s' := by
  unfold advance at taken
  cases goroutine with
  | starting binaryPath =>
      cases event with
      | launch desc =>
          cases desc with
          | none =>
              cases taken
              exact .startFails binaryPath
          | some desc =>
              cases taken
              exact .startLaunches binaryPath desc
      | next => contradiction
      | timeout => contradiction
  | started binaryPath inst =>
      cases event with
      | next =>
          cases taken
          exact .startInstalls binaryPath inst
      | launch desc => contradiction
      | timeout => contradiction
  | reloading pluginID oldInst binaryPath =>
      cases event with
      | launch desc =>
          cases desc with
          | none =>
              cases taken
              exact .reloadFails pluginID oldInst binaryPath
          | some desc =>
              cases taken
              exact .reloadLaunches pluginID oldInst binaryPath desc
      | next => contradiction
      | timeout => contradiction
  | launched pluginID oldInst binaryPath newInst =>
      cases event with
      | next =>
          cases taken
          exact .reloadSwaps pluginID oldInst binaryPath newInst
      | launch desc => contradiction
      | timeout => contradiction
  | draining old =>
      cases event with
      | next =>
          simp only at taken
          split at taken
          · rename_i idle
            cases taken
            exact .drains old idle
          · contradiction
      | timeout =>
          cases taken
          exact .givesUp old
      | launch desc => contradiction
  | drained old =>
      cases event with
      | next =>
          cases taken
          exact .closes old
      | launch desc => contradiction
      | timeout => contradiction
  | holding process =>
      cases event with
      | next =>
          cases taken
          exact .counts process
      | launch desc => contradiction
      | timeout => contradiction
  | counted process =>
      cases event with
      | next =>
          cases taken
          exact .calls process
      | launch desc => contradiction
      | timeout => contradiction
  | calling process =>
      cases event with
      | next =>
          cases taken
          exact .returns process
      | launch desc => contradiction
      | timeout => contradiction
  | returned process =>
      cases event with
      | next =>
          cases taken
          exact .finishes process
      | launch desc => contradiction
      | timeout => contradiction

/-- The step of a system. -/
inductive Steps (s : System) : Action → System → Prop
  | starts (binaryPath) :
      Steps s (.start binaryPath) { s with goroutines := .starting binaryPath :: s.goroutines }
  | stops {pluginID inst} (tracked : s.manager.instances.lookup pluginID = some inst) :
      Steps s (.stop pluginID)
        { s with
          manager :=
            { s.manager with
              registry := s.manager.registry.unregisterPlugin pluginID
              instances := s.manager.instances.erase pluginID }
          closed := inst.process :: s.closed
          stopped := pluginID :: s.stopped }
  | reloads {pluginID oldInst} (binaryPath)
      (tracked : s.manager.instances.lookup pluginID = some oldInst) :
      Steps s (.reload pluginID)
        { s with goroutines := .reloading pluginID oldInst binaryPath :: s.goroutines }
  /-- `Stop` and `Reload` of a plugin that is not tracked. -/
  | rejects (action) : Steps s action s
  | looksUp {table handle a process}
      (found : (s.manager.registry.table table).lookup handle = some a)
      (owned : s.owner a = some process) :
      Steps s (.lookUp table handle) { s with goroutines := .holding process :: s.goroutines }
  | advances {position event before goroutine after s'}
      (focused : focus position s.goroutines = some (before, goroutine, after))
      (advances : Advances s before after goroutine event s') :
      Steps s (.advance position event) s'

theorem step_cases {action : Action} (taken : step s action = some s') : Steps s action s' := by
  cases action with
  | start binaryPath =>
      cases taken
      exact .starts binaryPath
  | stop pluginID =>
      simp only [step, PluginManager.stop] at taken
      cases tracked : s.manager.instances.lookup pluginID with
      | none =>
          rw [tracked] at taken
          cases taken
          exact .rejects _
      | some inst =>
          rw [tracked] at taken
          cases taken
          exact .stops tracked
  | reload pluginID =>
      simp only [step, PluginManager.reloadRead] at taken
      cases tracked : s.manager.instances.lookup pluginID with
      | none =>
          rw [tracked] at taken
          cases taken
          exact .rejects _
      | some oldInst =>
          rw [tracked] at taken
          cases taken
          exact .reloads _ tracked
  | lookUp table handle =>
      rcases Option.map_eq_some_iff.mp taken with ⟨process, bound, rfl⟩
      rcases Option.bind_eq_some_iff.mp bound with ⟨a, found, owned⟩
      exact .looksUp found owned
  | advance position event =>
      rcases Option.bind_eq_some_iff.mp taken with ⟨⟨before, goroutine, after⟩, focused, moved⟩
      exact .advances focused (System.advances moved)

end System

end Kiyomi.Plugin.Host
