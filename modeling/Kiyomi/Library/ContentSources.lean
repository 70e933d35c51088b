import Kiyomi.Foundation.Run
import Kiyomi.Library.BindingSections

namespace Kiyomi.Library

/-! # The last content source

`RemoveProvider` checks that a content-capable provider stays when it takes the active content
binding away, and only then. -/

/-- A lookup of the capabilities of a provider. -/
abbrev CapabilityLookup := String → List String

/-- The provider has the capability to deliver content. -/
def isContentCapable (capabilityLookup : CapabilityLookup) (p : ProviderRef) : Bool :=
  (capabilityLookup p.providerID).contains "content"

namespace MangaBindings

/-- `HasContentProvider`. -/
def hasContentProvider (b : MangaBindings) (excluding : String × String)
    (capabilityLookup : CapabilityLookup) : Bool :=
  b.providers.any fun p => p.pair != excluding && isContentCapable capabilityLookup p

/-- Some bound provider is content-capable. -/
def hasSource (b : MangaBindings) (capabilityLookup : CapabilityLookup) : Bool :=
  b.providers.any (isContentCapable capabilityLookup)

end MangaBindings

/-- A call on the bindings, with what it is given and whether the system lets it read and save. -/
inductive ProviderAction
  | addProvider (ref : ProviderRef) (storage : Storage)
  | removeProvider (providerID providerMangaID : String) (capabilityLookup : CapabilityLookup)
      (storage : Storage)
  | switchContentProvider (providerID providerMangaID title readingMode : String)
      (storage : Storage)

namespace ProviderAction

/-- What the call does between reading and saving. -/
def change (b : MangaBindings) : ProviderAction → Except String MangaBindings
  | .addProvider ref _ => .ok (b.addProvider ref)
  | .removeProvider providerID providerMangaID capabilityLookup _ =>
      b.removeProvider providerID providerMangaID capabilityLookup
  | .switchContentProvider providerID providerMangaID title readingMode _ =>
      .ok (b.switchContentProvider providerID providerMangaID title readingMode)

def storage : ProviderAction → Storage
  | .addProvider _ storage | .removeProvider _ _ _ storage | .switchContentProvider _ _ _ _ storage =>
      storage

/-- What the call returns. -/
def result (action : ProviderAction) (stored : SavedBindings) : Except BindingsError Unit :=
  (updateBindings (action.change ·) action.storage stored.bindings).1

/-- What the call leaves is normalised again. -/
def after (action : ProviderAction) (stored : SavedBindings) : SavedBindings where
  bindings := (updateBindings (action.change ·) action.storage stored.bindings).2
  distinct := by
    cases ended : updateBindings (action.change ·) action.storage stored.bindings with
    | mk result bindings =>
        cases result with
        | error error =>
            rw [updateBindings_error ended]
            exact stored.distinct
        | ok _ =>
            rcases updateBindings_ok ended with ⟨changed, _, rfl⟩
            exact (firstSeen_distinct changed.providers []).1

end ProviderAction

namespace SavedBindings

def step : StepFunction SavedBindings ProviderAction := fun stored action => some (action.after stored)

/-- A removal that returns nil leaves a content-capable provider if there was one. -/
def KeepsSource (stored : SavedBindings) (action : ProviderAction) : Prop :=
  match action with
  | .removeProvider _ _ capabilityLookup _ =>
      action.result stored = .ok () → stored.bindings.hasSource capabilityLookup = true →
        (action.after stored).bindings.hasSource capabilityLookup = true
  | _ => True

/-- A removal that gets through takes the active content binding away, or a binding that is not
the only content-capable one. -/
def SparesSource (stored : SavedBindings) (action : ProviderAction) : Prop :=
  match action with
  | .removeProvider providerID providerMangaID capabilityLookup storage =>
      (storage.saves && stored.bindings.binds (providerID, providerMangaID)) = true →
        stored.bindings.content.map ContentSource.pair = some (providerID, providerMangaID) ∨
        (capabilityLookup providerID).contains "content" = false ∨
        stored.bindings.hasContentProvider (providerID, providerMangaID) capabilityLookup = true
  | _ => True

variable {stored : SavedBindings} {providerID providerMangaID : String}
  {capabilityLookup : CapabilityLookup} {storage : Storage}

/-- The guard of `RemoveProvider` is `HasContentProvider`. -/
theorem removeProvider_guard :
    ((stored.bindings.providers.filter fun p => p.pair != (providerID, providerMangaID)).any
      fun p => (capabilityLookup p.providerID).contains "content") =
    stored.bindings.hasContentProvider (providerID, providerMangaID) capabilityLookup := by
  rw [List.any_filter]
  rfl

/-- A removal that is not refused leaves the other bindings. -/
theorem removeProvider_cases :
    (∃ message, stored.bindings.removeProvider providerID providerMangaID capabilityLookup =
        .error message) ∧
      ¬ (stored.bindings.binds (providerID, providerMangaID) = true ∧
        (stored.bindings.content.map ContentSource.pair = some (providerID, providerMangaID) →
          stored.bindings.hasContentProvider (providerID, providerMangaID) capabilityLookup = true)) ∨
    (∃ b, stored.bindings.removeProvider providerID providerMangaID capabilityLookup = .ok b ∧
        b.providers =
          stored.bindings.providers.filter fun p => p.pair != (providerID, providerMangaID)) ∧
      stored.bindings.binds (providerID, providerMangaID) = true ∧
        (stored.bindings.content.map ContentSource.pair = some (providerID, providerMangaID) →
          stored.bindings.hasContentProvider (providerID, providerMangaID) capabilityLookup = true) := by
  rw [MangaBindings.removeProvider, removeProvider_guard]
  by_cases bound : stored.bindings.binds (providerID, providerMangaID) = true
  · by_cases active : stored.bindings.content.map ContentSource.pair =
        some (providerID, providerMangaID)
    · by_cases another :
          stored.bindings.hasContentProvider (providerID, providerMangaID) capabilityLookup = true
      · simp [bound, active, another]
      · simp [bound, active, another]
    · simp [bound, active]
  · simp [bound]

theorem removeProvider_result :
    (ProviderAction.removeProvider providerID providerMangaID capabilityLookup storage).result stored =
        .ok () ↔
      (storage.saves && stored.bindings.binds (providerID, providerMangaID)) = true ∧
        (stored.bindings.content.map ContentSource.pair = some (providerID, providerMangaID) →
          stored.bindings.hasContentProvider (providerID, providerMangaID) capabilityLookup = true) := by
  rcases storage with ⟨readable, writable⟩
  simp only [ProviderAction.result, updateBindings, ProviderAction.change, ProviderAction.storage,
    Storage.saves]
  rcases @removeProvider_cases stored providerID providerMangaID capabilityLookup with
    ⟨⟨message, refused⟩, not⟩ | ⟨⟨b, changed, _⟩, bound, guarded⟩
  · cases readable with
    | false => simp
    | true =>
        simp only [refused]
        refine iff_of_false (by simp) fun both => not ⟨?_, both.2⟩
        exact (Bool.and_eq_true_iff.mp both.1).2
  · cases readable with
    | false => simp
    | true =>
        simp only [changed]
        cases writable with
        | false => simp
        | true => exact iff_of_true rfl ⟨by simpa using bound, guarded⟩

/-- What is bound after a removal that returns nil. -/
theorem removeProvider_hasSource
    (returns : (ProviderAction.removeProvider providerID providerMangaID capabilityLookup
      storage).result stored = .ok ()) :
    ((ProviderAction.removeProvider providerID providerMangaID capabilityLookup storage).after
      stored).bindings.hasSource capabilityLookup =
      stored.bindings.hasContentProvider (providerID, providerMangaID) capabilityLookup := by
  rcases updateBindings_ok (Prod.ext returns rfl) with ⟨b, changed, after⟩
  have left : b.providers =
      stored.bindings.providers.filter fun p => p.pair != (providerID, providerMangaID) := by
    rcases @removeProvider_cases stored providerID providerMangaID capabilityLookup with
      ⟨⟨message, refused⟩, _⟩ | ⟨⟨other, same, providers⟩, _⟩
    · exact nomatch refused.symm.trans changed
    · cases same.symm.trans changed
      exact providers
  have distinct : (bindingKeys b.providers).Nodup := by
    rw [left]
    exact (List.filter_sublist.map _).nodup stored.distinct
  have normalized : b.normalize.providers = b.providers :=
    firstSeen_of_distinct distinct fun _ _ => List.not_mem_nil
  refine (congrArg (fun ended : MangaBindings => ended.providers.any
    (isContentCapable capabilityLookup)) after).trans ?_
  rw [normalized, left, ← removeProvider_guard]
  rfl

theorem keepsSource_iff (stored : SavedBindings) (action : ProviderAction) :
    stored.KeepsSource action ↔ stored.SparesSource action := by
  cases action with
  | addProvider _ _ => exact Iff.rfl
  | switchContentProvider _ _ _ _ _ => exact Iff.rfl
  | removeProvider providerID providerMangaID capabilityLookup storage =>
      constructor
      · intro keeps reaches
        by_cases active : stored.bindings.content.map ContentSource.pair =
            some (providerID, providerMangaID)
        · exact .inl active
        cases capable : (capabilityLookup providerID).contains "content" with
        | false => exact .inr (.inl rfl)
        | true =>
            refine .inr (.inr ?_)
            have returns := (@removeProvider_result stored providerID providerMangaID
              capabilityLookup storage).mpr ⟨reaches, fun isActive => absurd isActive active⟩
            rw [← removeProvider_hasSource returns]
            refine keeps returns ?_
            rcases List.any_eq_true.mp (Bool.and_eq_true_iff.mp reaches).2 with ⟨p, member, same⟩
            have samePair : p.pair = (providerID, providerMangaID) := by simpa using same
            refine List.any_eq_true.mpr ⟨p, member, ?_⟩
            rw [isContentCapable, (Prod.mk.inj samePair).1, capable]
      · intro spares returns has
        rcases removeProvider_result.mp returns with ⟨reaches, guarded⟩
        rw [removeProvider_hasSource returns]
        rcases spares reaches with active | incapable | another
        · exact guarded active
        · rcases List.any_eq_true.mp has with ⟨p, member, capable⟩
          refine List.any_eq_true.mpr ⟨p, member, ?_⟩
          rw [capable, Bool.and_true, bne_iff_ne]
          intro same
          rw [isContentCapable, (Prod.mk.inj same).1, incapable] at capable
          contradiction
        · exact another

/-- In a run of provider calls every removal that returns nil keeps a content source exactly if
every removal spares one. -/
theorem removals_keepSource_iff {first last : SavedBindings} {actions : List ProviderAction} :
    Run step KeepsSource first actions last ↔ Run step SparesSource first actions last :=
  ⟨fun run => run.weaken fun stored action => (keepsSource_iff stored action).mp,
    fun run => run.weaken fun stored action => (keepsSource_iff stored action).mpr⟩

/-- A provider that is bound, but not the active one, can be removed although no other delivers
content. -/
theorem removeProvider_takes_last :
    ∃ stored capabilityLookup, ∃ action : ProviderAction,
      Run step (fun _ _ => True) missing [.addProvider ⟨"a", "1", ""⟩ ⟨true, true⟩] stored ∧
        action = .removeProvider "a" "1" capabilityLookup ⟨true, true⟩ ∧
        action.result stored = .ok () ∧ stored.bindings.hasSource capabilityLookup = true ∧
        (action.after stored).bindings.hasSource capabilityLookup = false :=
  ⟨_, fun _ => ["content"], _, .cons trivial rfl (.nil _), rfl, by decide +kernel, by decide +kernel,
    by decide +kernel⟩

end SavedBindings

end Kiyomi.Library
