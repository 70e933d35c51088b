import Kiyomi.Foundation.Run
import Kiyomi.Library.Bindings

namespace Kiyomi.Library

open Go

/-! # Writers of one bindings file

`refreshChaptersFromContent` reads the bindings, fetches the chapter list and writes
its copy back with a new stamp. `HandlePullManga` fetches first and then reads and
writes under two separate locks. The provider calls hold the lock from their read to
their write. -/

inductive BindingWriter
  | refreshRead (copy : SavedBindings)
  | refreshFetched (copy : SavedBindings)
  | pullStarted
  | pullFetched
  | pullRead (copy : SavedBindings)

structure BindingSystem where
  stored : SavedBindings
  writers : List BindingWriter
  /-- Provider calls that returned nil, newest first. -/
  log : List BindingCall

inductive BindingAction
  | startRefresh
  | startPull
  | fetchChapters (position : Nat)
  | getBindings (position : Nat)
  | saveBindings (position : Nat) (now : Time)
  | fail (position : Nat)
  | addProvider (ref : ProviderRef)
  | removeProvider (providerID providerMangaID : String)
      (capabilityLookup : String → List String)
  | switchContentProvider (providerID providerMangaID title readingMode : String)

namespace BindingSystem

/-- No writer under way. -/
def idle (stored : SavedBindings) : BindingSystem := ⟨stored, [], []⟩

/-- The copy that a writer is about to write back. -/
def pendingCopy : BindingWriter → Option SavedBindings
  | .refreshFetched copy | .pullRead copy => some copy
  | _ => none

def step : StepFunction BindingSystem BindingAction
  | s, .startRefresh =>
      match s.stored.bindings.content with
      | none => none
      | some content =>
          if content.providerID = "" then none
          else some { s with writers := s.writers ++ [.refreshRead s.stored] }
  | s, .startPull => some { s with writers := s.writers ++ [.pullStarted] }
  | s, .fetchChapters position =>
      match focus position s.writers with
      | some (before, .refreshRead copy, after) =>
          some { s with writers := before ++ .refreshFetched copy :: after }
      | some (before, .pullStarted, after) =>
          some { s with writers := before ++ .pullFetched :: after }
      | _ => none
  | s, .getBindings position =>
      match focus position s.writers with
      | some (before, .pullFetched, after) =>
          if s.stored.bindings.content.isNone then some { s with writers := before ++ after }
          else some { s with writers := before ++ .pullRead s.stored :: after }
      | _ => none
  | s, .saveBindings position now =>
      match focus position s.writers with
      | none => none
      | some (before, writer, after) =>
          match pendingCopy writer with
          | none => none
          | some copy =>
              some
                { s with
                  stored := SavedBindings.save (copy.bindings.stamp now)
                  writers := before ++ after }
  | s, .fail position =>
      match focus position s.writers with
      | none => none
      | some (before, _, after) => some { s with writers := before ++ after }
  | s, .addProvider ref =>
      some
        { s with
          stored := SavedBindings.save (s.stored.bindings.addProvider ref)
          log := .added ref.pair :: s.log }
  | s, .removeProvider providerID providerMangaID capabilityLookup =>
      match s.stored.bindings.removeProvider providerID providerMangaID capabilityLookup with
      | .error _ => some s
      | .ok bindings =>
          some
            { s with
              stored := SavedBindings.save bindings
              log := .removed (providerID, providerMangaID) :: s.log }
  | s, .switchContentProvider providerID providerMangaID title readingMode =>
      some
        { s with
          stored := SavedBindings.save
            (s.stored.bindings.switchContentProvider providerID providerMangaID title readingMode)
          log := .switched (providerID, providerMangaID) :: s.log }

/-- Every call that returned nil is visible in the stored bindings, unless a later
one undid it. -/
def NoLostUpdate (s : BindingSystem) : Prop := BindingCall.Kept s.log s.stored.bindings.view

/-- A write-back finds the providers and the active binding of its copy still in
place, and a call binds a pair whose key no other provider has. -/
def freshWrite (s : BindingSystem) : BindingAction → Bool
  | .saveBindings position _ =>
      match focus position s.writers with
      | none => true
      | some (_, writer, _) =>
          (pendingCopy writer).all fun copy => copy.bindings.sameView s.stored.bindings
  | .addProvider ref => s.stored.bindings.keyFree ref.pair
  | .switchContentProvider providerID providerMangaID _ _ =>
      s.stored.bindings.keyFree (providerID, providerMangaID)
  | _ => true

variable {s s' : BindingSystem}

/-- A fresh step performs one logged call on the view, or leaves it alone. -/
theorem step_view {action : BindingAction} (fresh : s.freshWrite action = true)
    (taken : s.step action = some s') :
    s'.stored.bindings.view = s.stored.bindings.view ∧ s'.log = s.log ∨
    ∃ call, s'.log = call :: s.log ∧
      s'.stored.bindings.view = call.apply s.stored.bindings.view := by
  cases action with
  | startRefresh =>
      left
      simp only [step] at taken
      split at taken
      · contradiction
      · split at taken
        · contradiction
        · cases taken
          exact ⟨rfl, rfl⟩
  | startPull =>
      cases taken
      exact .inl ⟨rfl, rfl⟩
  | fetchChapters position =>
      left
      simp only [step] at taken
      split at taken
      · cases taken
        exact ⟨rfl, rfl⟩
      · cases taken
        exact ⟨rfl, rfl⟩
      · contradiction
  | getBindings position =>
      left
      simp only [step] at taken
      split at taken
      · split at taken <;> cases taken <;> exact ⟨rfl, rfl⟩
      · contradiction
  | saveBindings position now =>
      left
      simp only [step] at taken
      split at taken
      · contradiction
      · rename_i before writer after focused
        cases copyOf : pendingCopy writer with
        | none => simp [copyOf] at taken
        | some copy =>
            simp only [copyOf, Option.some.injEq] at taken
            simp only [freshWrite, focused, copyOf, Option.all_some] at fresh
            rw [← taken]
            exact ⟨(MangaBindings.stamp_view copy now).trans
              (MangaBindings.view_of_sameView fresh), rfl⟩
  | fail position =>
      left
      simp only [step] at taken
      split at taken
      · contradiction
      · cases taken
        exact ⟨rfl, rfl⟩
  | addProvider ref =>
      cases taken
      exact .inr ⟨.added ref.pair, rfl, MangaBindings.addProvider_view s.stored fresh⟩
  | removeProvider providerID providerMangaID capabilityLookup =>
      simp only [step] at taken
      split at taken
      · cases taken
        exact .inl ⟨rfl, rfl⟩
      · rename_i bindings removed
        cases taken
        exact .inr ⟨.removed (providerID, providerMangaID), rfl,
          MangaBindings.removeProvider_view s.stored removed⟩
  | switchContentProvider providerID providerMangaID title readingMode =>
      cases taken
      exact .inr ⟨.switched (providerID, providerMangaID), rfl,
        MangaBindings.switchContentProvider_view s.stored title readingMode fresh⟩

/-- Over every interleaving in which each write-back is fresh. -/
theorem noLostUpdate_of_freshWrite (stored : SavedBindings) {actions : List BindingAction}
    {last : BindingSystem}
    (run : Run step (fun s action => s.freshWrite action = true) (idle stored) actions last) :
    last.NoLostUpdate := by
  have replayed := run.replays (fun s => s.stored.bindings.view) log BindingCall.apply
    stored.bindings.view (fun _ _ _ fresh taken => step_view fresh taken) rfl
  unfold NoLostUpdate
  rw [replayed]
  exact BindingCall.kept_replay last.log stored.bindings.view

/-- Bindings with one provider, which is active. -/
def boundOnce : SavedBindings :=
  ⟨⟨[⟨"mangadex", "1", ""⟩], some ⟨"mangadex", "1", "", "", Time.zero⟩⟩, by simp [bindingKeys]⟩

/-- A provider is added before the refresh reads, and the refresh writes back. -/
theorem noLostUpdate_of_freshWrite_after_add :
    ∃ last,
      Run step (fun s action => s.freshWrite action = true) (idle boundOnce)
        [.addProvider ⟨"local", "2", ""⟩, .startRefresh, .fetchChapters 0,
          .saveBindings 0 Time.zero] last ∧
      last.log = [.added ("local", "2")] ∧ last.NoLostUpdate := by
  have executed : (Run.execute step freshWrite (idle boundOnce)
      [.addProvider ⟨"local", "2", ""⟩, .startRefresh, .fetchChapters 0,
        .saveBindings 0 Time.zero]).map log = some [.added ("local", "2")] := by decide
  rcases Option.map_eq_some_iff.mp executed with ⟨last, executed, observed⟩
  have run := Run.ofExecute executed
  exact ⟨last, run, observed, noLostUpdate_of_freshWrite boundOnce run⟩

/-- The provider is added while the refresh fetches: the write-back drops it. -/
theorem refresh_drops_added_provider :
    ¬ ∀ stored actions last,
      Run step (fun _ _ => true = true) (idle stored) actions last → last.NoLostUpdate := by
  intro claimed
  have executed : (Run.execute step (fun _ _ => true) (idle boundOnce)
      [.startRefresh, .addProvider ⟨"local", "2", ""⟩, .fetchChapters 0,
        .saveBindings 0 Time.zero]).map (fun last => (last.log, last.stored.bindings.providers)) =
      some ([.added ("local", "2")], [⟨"mangadex", "1", ""⟩]) := by decide
  rcases Option.map_eq_some_iff.mp executed with ⟨last, executed, observed⟩
  rw [Prod.mk.injEq] at observed
  have kept := claimed boundOnce _ last (Run.ofExecute executed)
  have present := kept [] (.added ("local", "2")) [] observed.1 (by simp)
  simp [BindingCall.Holds, MangaBindings.view, observed.2, ProviderRef.pair] at present

end BindingSystem

end Kiyomi.Library
