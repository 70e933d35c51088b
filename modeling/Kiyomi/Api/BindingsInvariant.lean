import Kiyomi.Api.MergeFaults
import Kiyomi.Foundation.Run
import Kiyomi.Library.ValidBindings

namespace Kiyomi.Api

open Go Library

/-! # The bindings of a manga under all of its writers

The provider calls, the bindings step of a merge into the manga and the stamp of
`pull_manga`, section by section. Between two sections of a call any others can run. -/

inductive BindingsCall
  | addProvider (ref : ProviderRef)
  | removeProvider (providerID providerMangaID : String)
      (capabilityLookup : String → List String)
  | switchContentProvider (providerID providerMangaID mangaTitle readingMode : String)
  | mergeLibraryManga (body : MergeRequest)
  | handlePullManga

/-- Why a call returned an error. -/
inductive BindingsFailure
  | bindings (error : BindingsError)
  | merge (error : MergeError)
  /-- `HandlePullManga` before its stamp. -/
  | pull
  deriving DecidableEq

/-- The next section of a call. -/
inductive BindingsPhase
  | called (call : BindingsCall)
  | switching (providerID providerMangaID title readingMode : String)
  | loadingSources (body : MergeRequest) (keepInfo : Manga)
  | savingMerged (plan : MergePlan)
  | stamping (copy : MangaBindings)
  | returned (result : Except BindingsFailure Unit)

/-- What a section meets beside the bindings. -/
structure BindingsWorld where
  storage : Storage
  /-- The metadata of the manga, if they can be read. -/
  metadata : Option MangaMetadata
  userState : UserState
  /-- The sources of a merge, or the first that is not found. -/
  sources : Except String (List (String × Manga))
  /-- Whether `SaveMetadata` or the pull before its stamp succeed. -/
  proceeds : Bool
  now : Time

namespace BindingsPhase

/-- A section that ends its call. -/
def finish (result : Except BindingsError Unit × MangaBindings) : BindingsPhase × MangaBindings :=
  (.returned (result.1.mapError .bindings), result.2)

/-- The next section of a call. -/
def advance (world : BindingsWorld) (stored : MangaBindings) :
    BindingsPhase → BindingsPhase × MangaBindings
  | .called (.addProvider ref) =>
      finish (updateBindings (fun b => .ok (b.addProvider ref)) world.storage stored)
  | .called (.removeProvider providerID providerMangaID capabilityLookup) =>
      finish (updateBindings (fun b => b.removeProvider providerID providerMangaID capabilityLookup)
        world.storage stored)
  | .called (.switchContentProvider providerID providerMangaID mangaTitle readingMode) =>
      (.switching providerID providerMangaID (Effects.snapshotTitle mangaTitle world.metadata)
        readingMode, stored)
  | .switching providerID providerMangaID title readingMode =>
      finish (updateBindings (fun b =>
        .ok (b.switchContentProvider providerID providerMangaID title readingMode))
        world.storage stored)
  | .called (.mergeLibraryManga body) =>
      match body.refusal with
      | some refusal => (.returned (.error (.merge (.refused refusal))), stored)
      | none =>
          match world.metadata, world.storage.readable with
          | some metadata, true =>
              (.loadingSources body
                { id := body.keepMangaID
                  metadata
                  userState := world.userState
                  bindings := stored }, stored)
          | _, _ =>
              (.returned (.error (.merge (.refused (.mangaNotFound body.keepMangaID)))), stored)
  | .loadingSources body keepInfo =>
      match world.sources with
      | .error srcID => (.returned (.error (.merge (.refused (.mangaNotFound srcID)))), stored)
      | .ok sources =>
          match planMerge body keepInfo sources with
          | .error refusal => (.returned (.error (.merge (.refused refusal))), stored)
          | .ok plan => (.savingMerged plan, stored)
  | .savingMerged plan =>
      if world.proceeds && world.storage.writable then
        (.returned (.ok ()), plan.bindings.normalize)
      else (.returned (.error (.merge .saveFailed)), stored)
  | .called .handlePullManga =>
      if !world.proceeds then (.returned (.error .pull), stored)
      else if !world.storage.readable then (.returned (.error (.bindings .unreadable)), stored)
      else if stored.content.isNone then (.returned (.ok ()), stored)
      else (.stamping stored, stored)
  | .stamping copy =>
      if world.storage.writable then (.returned (.ok ()), (copy.stamp world.now).normalize)
      else (.returned (.error (.bindings .unsaved)), stored)
  | .returned result => (.returned result, stored)

/-- Whether the section, if it saves, leaves a content binding that no other binding under
the same key comes before. -/
def keepsContent (world : BindingsWorld) (stored : MangaBindings) : BindingsPhase → Bool
  | .called (.addProvider _) => !world.storage.saves || stored.contentLeads
  | .called (.removeProvider providerID providerMangaID _) =>
      let pair := (providerID, providerMangaID)
      !world.storage.saves || (!stored.binds pair || stored.content.all fun content =>
        content.pair == pair ||
          leads (stored.providers.filter fun p => p.pair != pair) content.pair)
  | .switching providerID providerMangaID _ _ =>
      !world.storage.saves || leads stored.providers (providerID, providerMangaID)
  | .stamping copy => !world.storage.writable || copy.contentLeads
  | _ => true

end BindingsPhase

/-- A call under way or back. -/
structure BindingsProcess where
  phase : BindingsPhase
  /-- One of its sections has changed what is stored. -/
  changed : Bool

structure BindingsSystem where
  stored : MangaBindings
  calls : List BindingsProcess

inductive BindingsAction
  | call (call : BindingsCall)
  | advance (position : Nat) (world : BindingsWorld)

namespace BindingsSystem

def idle (stored : MangaBindings) : BindingsSystem := ⟨stored, []⟩

def step : StepFunction BindingsSystem BindingsAction
  | s, .call call => some { s with calls := s.calls ++ [⟨.called call, false⟩] }
  | s, .advance position world =>
      match focus position s.calls with
      | none => none
      | some (before, process, after) =>
          let (phase, stored) := process.phase.advance world s.stored
          some
            { stored
              calls := before ++ ⟨phase, process.changed || stored != s.stored⟩ :: after }

def keepsContent (s : BindingsSystem) : BindingsAction → Bool
  | .call _ => true
  | .advance position world =>
      match focus position s.calls with
      | none => true
      | some (_, process, _) => process.phase.keepsContent world s.stored

end BindingsSystem

/-! ## One section -/

theorem planMerge_valid {body : MergeRequest} {keepInfo : Manga} {sources : List (String × Manga)}
    {plan : MergePlan} (planned : planMerge body keepInfo sources = .ok plan) :
    plan.bindings.normalize.Valid := by
  unfold planMerge at planned
  simp only at planned
  split at planned
  · contradiction
  · rename_i pair _
    split at planned
    · contradiction
    · rename_i present
      cases planned
      have bound : (mergeProviderRefs keepInfo.bindings.providers sources).any
          (fun p => p.pair == pair) = true := by simpa using present
      have keys := (firstSeen_distinct (keepInfo.bindings.providers ++
        sources.flatMap fun source => source.2.bindings.providers) []).1
      have saved := SavedBindings.save_of_distinct (b :=
        { providers := mergeProviderRefs keepInfo.bindings.providers sources
          content := some
            { ContentSource.zero with
              providerID := pair.1
              providerMangaID := pair.2
              readingMode := keepReadingMode keepInfo.bindings.content } }) keys
      refine (congrArg MangaBindings.Valid saved).mpr ⟨?_, ?_⟩
      · rw [MangaBindings.bindingKeys_eq] at keys
        exact keys.of_map _
      · rintro content ⟨rfl⟩
        exact bound

/-- A section that does not save leaves valid bindings; one that does, if the change does. -/
theorem updateBindings_valid_iff {change : MangaBindings → Except String MangaBindings}
    {stored : MangaBindings} (valid : stored.Valid) (storage : Storage) {keeps : Bool}
    (refused : ∀ message, change stored = .error message → keeps = true)
    (accepted : ∀ changed, change stored = .ok changed →
      (changed.normalize.Valid ↔ keeps = true)) :
    (updateBindings change storage stored).2.Valid ↔ (!storage.saves || keeps) = true := by
  rcases storage with ⟨readable, writable⟩
  unfold updateBindings Storage.saves
  cases readable with
  | false => simp [valid]
  | true =>
      cases changes : change stored with
      | error message => simp [valid, refused message changes]
      | ok changed =>
          cases writable with
          | false => simp [valid]
          | true => simpa using accepted changed changes

namespace BindingsPhase

/-- The copy of a pull is valid, and so is what a merge is going to save. -/
def Holds : BindingsPhase → Prop
  | .savingMerged plan => plan.bindings.normalize.Valid
  | .stamping copy => copy.Valid
  | _ => True

theorem advance_holds {stored : MangaBindings} (valid : stored.Valid) (world : BindingsWorld)
    {phase : BindingsPhase} : (phase.advance world stored).1.Holds := by
  cases phase with
  | called call =>
      cases call with
      | mergeLibraryManga body =>
          rw [advance]
          split
          · trivial
          · split <;> trivial
      | handlePullManga =>
          rw [advance]
          split
          · trivial
          · split
            · trivial
            · split
              · trivial
              · exact valid
      | _ => trivial
  | loadingSources body keepInfo =>
      rw [advance]
      split
      · trivial
      · split
        · trivial
        · rename_i planned
          exact planMerge_valid planned
  | savingMerged plan =>
      rw [advance]
      split <;> trivial
  | stamping copy =>
      rw [advance]
      split <;> trivial
  | _ => trivial

/-- What a section leaves is valid exactly if the section keeps the content binding. -/
theorem advance_valid_iff {stored : MangaBindings} (valid : stored.Valid) (world : BindingsWorld)
    {phase : BindingsPhase} (holds : phase.Holds) :
    (phase.advance world stored).2.Valid ↔ phase.keepsContent world stored = true := by
  cases phase with
  | called call =>
      cases call with
      | addProvider ref =>
          refine updateBindings_valid_iff valid world.storage (fun message never => ?_) ?_
          · contradiction
          · rintro changed ⟨rfl⟩
            exact MangaBindings.addProvider_valid_iff valid ref
      | removeProvider providerID providerMangaID capabilityLookup =>
          refine updateBindings_valid_iff valid world.storage (fun message refused => ?_) ?_
          · rcases MangaBindings.removeProvider_refused refused with unbound | active
            · simp [unbound]
            · rcases Option.map_eq_some_iff.mp active with ⟨content, found, same⟩
              simp [found, same]
          · intro changed removed
            have bound := MangaBindings.removeProvider_unbound removed
            rw [bound]
            exact MangaBindings.removeProvider_valid_iff valid removed
      | switchContentProvider providerID providerMangaID mangaTitle readingMode =>
          simp [advance, keepsContent, valid]
      | mergeLibraryManga body =>
          simp only [advance, keepsContent]
          split
          · simp [valid]
          · split <;> simp [valid]
      | handlePullManga =>
          simp only [advance, keepsContent]
          split
          · simp [valid]
          · split
            · simp [valid]
            · split <;> simp [valid]
  | switching providerID providerMangaID title readingMode =>
      refine updateBindings_valid_iff valid world.storage (fun message never => ?_) ?_
      · contradiction
      · rintro changed ⟨rfl⟩
        exact MangaBindings.switchContentProvider_valid_iff stored _ _ _ _
  | loadingSources body keepInfo =>
      simp only [advance, keepsContent]
      split
      · simp [valid]
      · split <;> simp [valid]
  | savingMerged plan =>
      have planned : plan.bindings.normalize.Valid := holds
      simp only [advance, keepsContent]
      split <;> simp [valid, planned]
  | stamping copy =>
      have copied : copy.Valid := holds
      simp only [advance, keepsContent]
      split
      · rename_i writable
        simpa [writable] using MangaBindings.stamp_valid_iff copied world.now
      · rename_i unwritable
        simp [valid, unwritable]
  | returned result => simp [advance, keepsContent, valid]

theorem finish_changed (change : MangaBindings → Except String MangaBindings) (storage : Storage)
    (stored : MangaBindings) :
    (finish (updateBindings change storage stored)).2 = stored ∨
      (finish (updateBindings change storage stored)).1 = .returned (.ok ()) := by
  cases result : updateBindings change storage stored with
  | mk outcome after =>
      cases outcome with
      | error error => exact .inl (updateBindings_error result)
      | ok _ => exact .inr rfl

/-- A section that changes what is stored is the last of a call that succeeds. -/
theorem advance_changed (world : BindingsWorld) (stored : MangaBindings) (phase : BindingsPhase) :
    (phase.advance world stored).2 = stored ∨
      (phase.advance world stored).1 = .returned (.ok ()) := by
  cases phase with
  | called call =>
      cases call with
      | addProvider | removeProvider => exact finish_changed _ _ _
      | switchContentProvider => exact .inl rfl
      | mergeLibraryManga body =>
          left
          simp only [advance]
          split
          · rfl
          · split <;> rfl
      | handlePullManga =>
          left
          simp only [advance]
          split
          · rfl
          · split
            · rfl
            · split <;> rfl
  | switching => exact finish_changed _ _ _
  | loadingSources body keepInfo =>
      left
      simp only [advance]
      split
      · rfl
      · split <;> rfl
  | savingMerged plan =>
      simp only [advance]
      split
      · exact .inr rfl
      · exact .inl rfl
  | stamping copy =>
      simp only [advance]
      split
      · exact .inr rfl
      · exact .inl rfl
  | returned result => exact .inl rfl

end BindingsPhase

/-! ## Every interleaving -/

namespace BindingsSystem

variable {s s' : BindingsSystem}

structure Invariant (s : BindingsSystem) : Prop where
  valid : s.stored.Valid
  holds : ∀ call ∈ s.calls, call.phase.Holds

theorem step_exact {action : BindingsAction} (invariant : s.Invariant)
    (taken : s.step action = some s') :
    s'.stored.Valid ↔ s.keepsContent action = true := by
  cases action with
  | call call =>
      cases taken
      simp [keepsContent, invariant.valid]
  | advance position world =>
      simp only [step] at taken
      split at taken
      · contradiction
      · rename_i before process after focused
        cases taken
        simp only [keepsContent, focused]
        have member : process ∈ s.calls := by rw [focus_eq focused]; simp
        exact BindingsPhase.advance_valid_iff invariant.valid world (invariant.holds process member)

theorem step_holds {action : BindingsAction} (invariant : s.Invariant)
    (taken : s.step action = some s') : ∀ call ∈ s'.calls, call.phase.Holds := by
  cases action with
  | call call =>
      cases taken
      exact List.forall_mem_append.mpr ⟨invariant.holds, List.forall_mem_singleton.mpr trivial⟩
  | advance position world =>
      simp only [step] at taken
      split at taken
      · contradiction
      · rename_i before process after focused
        cases taken
        have holds := invariant.holds
        rw [focus_eq focused, List.forall_mem_append, List.forall_mem_cons] at holds
        exact List.forall_mem_append.mpr ⟨holds.1, List.forall_mem_cons.mpr
          ⟨BindingsPhase.advance_holds invariant.valid world, holds.2.2⟩⟩

/-- Only a call that succeeded has changed what is stored. -/
def OnlySuccesses (s : BindingsSystem) : Prop :=
  ∀ call ∈ s.calls, call.changed = true → call.phase = .returned (.ok ())

theorem step_onlySuccesses {action : BindingsAction} (only : s.OnlySuccesses)
    (taken : s.step action = some s') : s'.OnlySuccesses := by
  cases action with
  | call call =>
      cases taken
      exact List.forall_mem_append.mpr ⟨only, List.forall_mem_singleton.mpr (by simp)⟩
  | advance position world =>
      simp only [step] at taken
      split at taken
      · contradiction
      · rename_i before process after focused
        cases taken
        rw [OnlySuccesses, focus_eq focused, List.forall_mem_append, List.forall_mem_cons] at only
        refine List.forall_mem_append.mpr ⟨only.1, List.forall_mem_cons.mpr ⟨?_, only.2.2⟩⟩
        intro changed
        rcases Bool.or_eq_true_iff.mp changed with earlier | now
        · -- a call that has returned stays as it is
          simp only [only.2.1 earlier, BindingsPhase.advance]
        · rcases BindingsPhase.advance_changed world s.stored process.phase with same | returned
          · simp [same] at now
          · exact returned

/-- The stored bindings stay valid over a run exactly if no section that saves drops its
content binding for another one under the same key; and a call that returned an error has
changed nothing. -/
theorem bindings_valid_iff (stored : MangaBindings) (valid : stored.Valid)
    (actions : List BindingsAction) (last : BindingsSystem)
    (run : Run step (fun _ _ => True) (idle stored) actions last) :
    (Run.Throughout step (fun s => s.stored.Valid) (idle stored) actions ↔
      Run step (fun s action => s.keepsContent action = true) (idle stored) actions last) ∧
    ∀ call ∈ last.calls, ∀ failure, call.phase = .returned (.error failure) →
      call.changed = false := by
  constructor
  · refine run.throughout_iff Invariant (fun _ invariant => invariant.valid)
      (fun s action s' invariant taken => ?_) ⟨valid, fun _ member => nomatch member⟩
    have exact := step_exact invariant taken
    exact ⟨fun keeps => ⟨exact.mpr keeps, step_holds invariant taken⟩, exact.mp⟩
  · have only : last.OnlySuccesses :=
      run.invariant OnlySuccesses (fun _ _ _ _ only taken => step_onlySuccesses only taken)
        (fun _ member => nomatch member)
    intro call member failure failed
    by_contra changed
    have succeeded := only call member (by simpa using changed)
    rw [failed] at succeeded
    exact nomatch succeeded

/-- Nothing fails. -/
def calm : BindingsWorld where
  storage := ⟨true, true⟩
  metadata := some MangaMetadata.zero
  userState := UserState.zero
  sources := .ok []
  proceeds := true
  now := Time.zero

/-- Bindings with one provider, which is active. -/
def bindingsOf (providerID providerMangaID : String) : MangaBindings where
  providers := [⟨providerID, providerMangaID, ""⟩]
  content := some { ContentSource.zero with providerID, providerMangaID }

theorem valid_bindingsOf (providerID providerMangaID : String) :
    (bindingsOf providerID providerMangaID).Valid where
  distinct := List.nodup_singleton _
  bound := by
    rintro content ⟨rfl⟩
    simp [bindingsOf, MangaBindings.binds, ProviderRef.pair, ContentSource.pair]

/-- A call to switch to another provider, with its two sections. -/
def switchTo (providerID providerMangaID : String) : List BindingsAction :=
  [.call (.switchContentProvider providerID providerMangaID "" ""), .advance 0 calm, .advance 0 calm]

theorem bindings_valid_iff_switch :
    ∃ last,
      Run step (fun _ _ => True) (idle (bindingsOf "mangadex" "1")) (switchTo "local" "2") last ∧
      ((Run.Throughout step (fun s => s.stored.Valid) (idle (bindingsOf "mangadex" "1"))
          (switchTo "local" "2") ↔
        Run step (fun s action => s.keepsContent action = true) (idle (bindingsOf "mangadex" "1"))
          (switchTo "local" "2") last) ∧
        ∀ call ∈ last.calls, ∀ failure, call.phase = .returned (.error failure) →
          call.changed = false) := by
  have executed : (Run.execute step (fun _ _ => true) (idle (bindingsOf "mangadex" "1"))
      (switchTo "local" "2")).isSome := by decide
  rcases Option.isSome_iff_exists.mp executed with ⟨last, executed⟩
  have run : Run step (fun _ _ => True) (idle (bindingsOf "mangadex" "1")) (switchTo "local" "2")
      last := (Run.ofExecute executed).weaken fun _ _ _ => trivial
  exact ⟨last, run, bindings_valid_iff (bindingsOf "mangadex" "1")
    (valid_bindingsOf "mangadex" "1") (switchTo "local" "2") last run⟩

/-- The new binding has the key of one that was added before, and `Normalize` drops it. -/
theorem switch_leaves_dangling_content :
    ¬ ∀ stored : MangaBindings, stored.Valid → ∀ actions last,
      Run step (fun _ _ => True) (idle stored) actions last → last.stored.Valid := by
  intro claimed
  have executed : (Run.execute step (fun _ _ => true)
      (idle { providers := [⟨"local\x001", "2", ""⟩], content := none })
      (switchTo "local" "1\x002")).map (fun last =>
        last.stored.content.all fun content => last.stored.binds content.pair) = some false := by
    decide
  rcases Option.map_eq_some_iff.mp executed with ⟨last, executed, dangling⟩
  have start : (⟨[⟨"local\x001", "2", ""⟩], none⟩ : MangaBindings).Valid :=
    ⟨List.nodup_singleton _, fun _ never => nomatch never⟩
  have valid := claimed _ start _ last ((Run.ofExecute executed).weaken fun _ _ _ => trivial)
  have bound := (Option.all_eq_true _ _).mpr valid.bound
  rw [dangling] at bound
  contradiction

end BindingsSystem

end Kiyomi.Api
