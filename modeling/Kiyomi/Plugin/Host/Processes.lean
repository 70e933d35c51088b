import Kiyomi.Plugin.Host.System

namespace Kiyomi.Plugin.Host

open Go Provider

/-! # No leaked process

Every live subprocess is the tracked instance of its plugin, or some goroutine of the manager
still holds it. -/

namespace Goroutine

/-- A call of the manager, or a drain in the background. -/
def IsManaging : Goroutine → Prop
  | .starting _ | .started _ _ | .reloading _ _ _ | .launched _ _ _ _ | .draining _ | .drained _ =>
      True
  | _ => False

/-- The goroutine has the instance to install or to close. -/
def Holds (inst : PluginInstance) : Goroutine → Prop
  | .started _ own => own = inst
  | .launched _ _ _ newInst => newInst = inst
  | .draining old => old = inst
  | .drained old => old = inst
  | _ => False

theorem isManaging_of_holds {inst : PluginInstance} {goroutine : Goroutine}
    (holds : goroutine.Holds inst) : goroutine.IsManaging := by
  cases goroutine <;> first | trivial | exact holds.elim

end Goroutine

namespace System

variable {s s' : System} {before after next : List Goroutine} {goroutine : Goroutine}

/-- No call of the manager is in progress and all drains have finished. -/
def Quiet (s : System) : Prop := ∀ goroutine ∈ s.goroutines, ¬ goroutine.IsManaging

/-- Every live process is the tracked instance of its plugin, and a stopped plugin has none. -/
structure NoLeak (s : System) : Prop where
  tracked : ∀ inst ∈ s.made, inst.process ∉ s.closed →
    s.manager.instances.lookup inst.pluginID = some inst
  stopped : ∀ pluginID ∈ s.stopped, ∀ inst ∈ s.made, inst.pluginID = pluginID →
    inst.process ∈ s.closed

/-- When a `Reload` puts its new instance in place, the instance that it read first is still
the tracked one, and the new build has the id of the plugin. -/
def swapsOld (s : System) : Action → Bool
  | .advance position .next =>
      match focus position s.goroutines with
      | some (_, .launched pluginID oldInst _ newInst, _) =>
          s.manager.instances.lookup pluginID = some oldInst && newInst.pluginID == pluginID
      | _ => true
  | _ => true

def Held (inst : PluginInstance) (goroutines : List Goroutine) : Prop :=
  ∃ goroutine ∈ goroutines, goroutine.Holds inst

/-- Where an instance is: closed, tracked, or in the hands of a goroutine. -/
def Placed (s : System) (inst : PluginInstance) : Prop :=
  inst.process ∈ s.closed ∨ s.manager.instances.lookup inst.pluginID = some inst ∨
    Held inst s.goroutines

structure Accounted (s : System) : Prop where
  placed : ∀ inst ∈ s.made, s.Placed inst
  stopped : ∀ pluginID ∈ s.stopped, s.manager.instances.lookup pluginID = none

theorem Held.push {inst : PluginInstance} {goroutines : List Goroutine}
    (held : Held inst goroutines) (goroutine : Goroutine) :
    Held inst (goroutine :: goroutines) := by
  rcases held with ⟨other, member, holds⟩
  exact ⟨other, List.mem_cons_of_mem _ member, holds⟩

/-- A goroutine moves on: what it held is held by what it becomes, or is released. -/
theorem Held.replace {inst : PluginInstance} (held : Held inst (before ++ goroutine :: after))
    (next : List Goroutine) :
    goroutine.Holds inst ∨ Held inst (before ++ next ++ after) := by
  rcases held with ⟨other, member, holds⟩
  rw [List.mem_append, List.mem_cons] at member
  rcases member with left | rfl | right
  · exact .inr ⟨other, List.mem_append_left _ (List.mem_append_left _ left), holds⟩
  · exact .inl holds
  · exact .inr ⟨other, List.mem_append_right _ right, holds⟩

theorem held_next {inst : PluginInstance} (member : goroutine ∈ next)
    (holds : goroutine.Holds inst) : Held inst (before ++ next ++ after) :=
  ⟨goroutine, List.mem_append_left _ (List.mem_append_right _ member), holds⟩

/-- Only the goroutine changes. -/
theorem Placed.replace {inst : PluginInstance} (placed : s.Placed inst)
    (parts : s.goroutines = before ++ goroutine :: after)
    (passedOn : goroutine.Holds inst → Held inst next) : (s.replace before next after).Placed inst := by
  rcases placed with closed | tracked | held
  · exact .inl closed
  · exact .inr (.inl tracked)
  · rw [parts] at held
    rcases held.replace next with holds | held
    · rcases passedOn holds with ⟨other, member, holds⟩
      exact .inr (.inr (held_next member holds))
    · exact .inr (.inr held)

theorem accounted_initial : initial.Accounted where
  placed _ member := absurd member List.not_mem_nil
  stopped _ member := absurd member List.not_mem_nil

theorem Accounted.advances {event : Event} (accounted : s.Accounted)
    (parts : s.goroutines = before ++ goroutine :: after)
    (advances : Advances s before after goroutine event s')
    (swaps : ∀ pluginID oldInst binaryPath newInst,
      goroutine = .launched pluginID oldInst binaryPath newInst →
      s.manager.instances.lookup pluginID = some oldInst ∧ newInst.pluginID = pluginID) :
    s'.Accounted := by
  have keeps (next : List Goroutine)
      (passedOn : ∀ inst, goroutine.Holds inst → Held inst next) :
      (s.replace before next after).Accounted :=
    ⟨fun inst member => (accounted.placed inst member).replace parts (passedOn inst),
      accounted.stopped⟩
  cases advances with
  | startFails binaryPath => exact keeps _ fun _ => False.elim
  | reloadFails pluginID oldInst binaryPath => exact keeps _ fun _ => False.elim
  | counts process =>
      have kept := keeps [.counted process] fun _ => False.elim
      exact ⟨kept.placed, kept.stopped⟩
  | calls process => exact keeps _ fun _ => False.elim
  | returns process => exact keeps _ fun _ => False.elim
  | finishes process =>
      have kept := keeps [] fun _ => False.elim
      exact ⟨kept.placed, kept.stopped⟩
  | drains old idle => exact keeps _ fun _ holds => ⟨_, List.mem_singleton_self _, holds⟩
  | givesUp old => exact keeps _ fun _ holds => ⟨_, List.mem_singleton_self _, holds⟩
  | startLaunches binaryPath desc =>
      refine ⟨fun inst member => ?_, accounted.stopped⟩
      rcases List.mem_cons.mp member with rfl | member
      · exact .inr (.inr (held_next (List.mem_singleton_self _) rfl))
      · exact (accounted.placed inst member).replace parts False.elim
  | reloadLaunches pluginID oldInst binaryPath desc =>
      refine ⟨fun inst member => ?_, accounted.stopped⟩
      rcases List.mem_cons.mp member with rfl | member
      · exact .inr (.inr (held_next (List.mem_singleton_self _) rfl))
      · exact (accounted.placed inst member).replace parts False.elim
  | startInstalls binaryPath own =>
      refine ⟨fun inst member => ?_, fun pluginID member => ?_⟩
      · rcases accounted.placed inst member with closed | tracked | held
        · exact .inl (List.mem_append_right _ closed)
        · by_cases same : inst.pluginID = own.pluginID
          · left
            rw [← same, tracked]
            exact List.mem_append_left _ (List.mem_singleton_self _)
          · right; left
            exact (AList.lookup_insert_ne same).trans tracked
        · rw [parts] at held
          rcases held.replace [] with holds | held
          · rcases holds with rfl
            exact .inr (.inl (AList.lookup_insert _))
          · exact .inr (.inr held)
      · rcases List.mem_filter.mp member with ⟨wasStopped, other⟩
        exact (AList.lookup_insert_ne (of_decide_eq_true other)).trans
          (accounted.stopped pluginID wasStopped)
  | reloadSwaps pluginID oldInst binaryPath newInst =>
      rcases swaps _ _ _ _ rfl with ⟨isOld, sameID⟩
      refine ⟨fun inst member => ?_, fun other member => ?_⟩
      · rcases accounted.placed inst member with closed | tracked | held
        · exact .inl closed
        · by_cases same : inst.pluginID = pluginID
          · rw [same, isOld] at tracked
            cases tracked
            exact .inr (.inr (held_next (List.mem_singleton_self _) rfl))
          · exact .inr (.inl ((AList.lookup_insert_ne same).trans tracked))
        · rw [parts] at held
          rcases held.replace [.draining oldInst] with holds | held
          · rcases holds with rfl
            rw [← sameID]
            exact .inr (.inl (AList.lookup_insert _))
          · exact .inr (.inr held)
      · have untracked := accounted.stopped other member
        have different : other ≠ pluginID := by
          rintro rfl
          rw [isOld] at untracked
          contradiction
        exact (AList.lookup_insert_ne different).trans untracked
  | closes old =>
      refine ⟨fun inst member => ?_, accounted.stopped⟩
      rcases accounted.placed inst member with closed | tracked | held
      · exact .inl (List.mem_cons_of_mem _ closed)
      · exact .inr (.inl tracked)
      · rw [parts] at held
        rcases held.replace [] with holds | held
        · rcases holds with rfl
          exact .inl List.mem_cons_self
        · exact .inr (.inr held)

theorem Accounted.step {action : Action} (accounted : s.Accounted) (swaps : s.swapsOld action = true)
    (taken : System.step s action = some s') : s'.Accounted := by
  cases step_cases taken with
  | starts binaryPath =>
      exact ⟨fun inst member => (accounted.placed inst member).imp_right
        (Or.imp_right fun held => held.push _), accounted.stopped⟩
  | reloads binaryPath tracked =>
      exact ⟨fun inst member => (accounted.placed inst member).imp_right
        (Or.imp_right fun held => held.push _), accounted.stopped⟩
  | looksUp found owned =>
      exact ⟨fun inst member => (accounted.placed inst member).imp_right
        (Or.imp_right fun held => held.push _), accounted.stopped⟩
  | rejects => exact accounted
  | @stops pluginID stopped isTracked =>
      refine ⟨fun inst member => ?_, fun other member => ?_⟩
      · rcases accounted.placed inst member with closed | tracked | held
        · exact .inl (List.mem_cons_of_mem _ closed)
        · by_cases same : inst.pluginID = pluginID
          · rw [same, isTracked] at tracked
            cases tracked
            exact .inl List.mem_cons_self
          · exact .inr (.inl ((AList.lookup_erase_ne same).trans tracked))
        · exact .inr (.inr held)
      · change (s.manager.instances.erase pluginID).lookup other = none
        rw [Map.lookup_erase]
        split
        · rfl
        · rename_i different
          exact accounted.stopped other ((List.mem_cons.mp member).resolve_left different)
  | @advances position event before goroutine after s' focused advances =>
      refine accounted.advances (focus_eq focused) advances ?_
      rintro pluginID oldInst binaryPath newInst rfl
      cases advances
      simpa [swapsOld, focused] using swaps

/-- In every run whose reloads replace the instance they have read, no process is leaked. -/
theorem noLeak_of_swapsOld {actions : List Action}
    (run : Run System.step (fun s action => s.swapsOld action = true) initial actions s)
    (quiet : s.Quiet) : s.NoLeak := by
  have accounted : s.Accounted := run.invariant Accounted
    (fun _ _ _ swaps accounted taken => accounted.step swaps taken) accounted_initial
  have tracked : ∀ inst ∈ s.made, inst.process ∉ s.closed →
      s.manager.instances.lookup inst.pluginID = some inst := by
    intro inst member live
    rcases accounted.placed inst member with closed | tracked | ⟨goroutine, isIn, holds⟩
    · exact absurd closed live
    · exact tracked
    · exact absurd (Goroutine.isManaging_of_holds holds) (quiet goroutine isIn)
  refine ⟨tracked, fun pluginID member inst made same => ?_⟩
  by_contra live
  have untracked := accounted.stopped pluginID member
  rw [← same, tracked inst made live] at untracked
  contradiction

def pack : PluginDescriptor := ⟨"pack", "1.0.0", ["fox"]⟩

/-- Start a plugin. -/
def starting : List Action :=
  [.start "pack", .advance 0 (.launch (some pack)), .advance 0 .next]

/-- A reload, its drain in the background, and a stop. -/
theorem noLeak_of_swapsOld_reload_and_stop :
    ∃ s, Run System.step (fun s action => s.swapsOld action = true) initial (starting ++
      [.reload "pack", .advance 0 (.launch (some pack)), .advance 0 .next, .advance 0 .next,
        .advance 0 .next, .stop "pack"]) s ∧ s.made.length = 2 ∧ s.NoLeak := by
  have ran : (Run.execute System.step swapsOld initial (starting ++
      [.reload "pack", .advance 0 (.launch (some pack)), .advance 0 .next, .advance 0 .next,
        .advance 0 .next, .stop "pack"])).map (fun s => (s.goroutines.isEmpty, s.made.length)) =
          some (true, 2) := by
    decide +kernel
  rcases Option.map_eq_some_iff.mp ran with ⟨s, executed, observed⟩
  rcases Prod.mk.inj observed with ⟨nobody, made⟩
  have run := Run.ofExecute executed
  refine ⟨s, run, made, noLeak_of_swapsOld run ?_⟩
  rw [Quiet, List.isEmpty_iff.mp nobody]
  exact fun _ member => absurd member List.not_mem_nil

/-- Two reloads read the same old instance, and the second one puts its own in the place of
the first one's, which nobody closes. -/
theorem concurrent_reloads_leak_process :
    ¬ ∀ (actions : List Action) (s : System), Run System.step (fun _ _ => True) initial actions s →
      s.Quiet → s.NoLeak := by
  intro always
  have ran : (Run.execute System.step (fun _ _ => true) initial (starting ++
      [.reload "pack", .reload "pack", .advance 0 (.launch (some pack)),
        .advance 1 (.launch (some pack)), .advance 0 .next, .advance 1 .next,
        .advance 0 .next, .advance 0 .next, .advance 0 .next, .advance 0 .next])).map (fun s =>
          (s.goroutines.isEmpty, s.made.all fun inst => decide (inst.process ∉ s.closed →
            s.manager.instances.lookup inst.pluginID = some inst))) = some (true, false) := by
    decide +kernel
  rcases Option.map_eq_some_iff.mp ran with ⟨s, executed, observed⟩
  rcases Prod.mk.inj observed with ⟨nobody, leaked⟩
  have run := (Run.ofExecute executed).weaken fun _ _ _ => trivial
  have noLeak := always _ s run (by
    rw [Quiet, List.isEmpty_iff.mp nobody]
    exact fun _ member => absurd member List.not_mem_nil)
  rw [List.all_eq_false] at leaked
  rcases leaked with ⟨inst, made, untracked⟩
  exact untracked (decide_eq_true (noLeak.tracked inst made))

end System

end Kiyomi.Plugin.Host
