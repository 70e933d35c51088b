import Kiyomi.Library.Documents
import Mathlib.Data.List.Nodup
import Mathlib.Data.Set.Insert

namespace Kiyomi.Library

open Go

/-! # Provider bindings

The operations on `bindings.json` that run under the library's lock, and what they
mean for the set of bound providers and the active content binding. -/

namespace ProviderRef

/-- Provider and manga id, which identify a binding. -/
def pair (p : ProviderRef) : String × String := (p.providerID, p.providerMangaID)

end ProviderRef

/-- The text by which `Normalize` tells bindings apart. -/
def bindingKey (pair : String × String) : String := pair.1 ++ "\x00" ++ pair.2

def ContentSource.pair (c : ContentSource) : String × String := (c.providerID, c.providerMangaID)

/-- The loop of `Normalize` with the keys seen so far. -/
def firstSeen (seen : List String) : List ProviderRef → List ProviderRef
  | [] => []
  | p :: providers =>
      if seen.contains (bindingKey p.pair) then firstSeen seen providers
      else p :: firstSeen (bindingKey p.pair :: seen) providers

/-- The keys of provider bindings. -/
def bindingKeys (providers : List ProviderRef) : List String :=
  providers.map fun p => bindingKey p.pair

theorem firstSeen_distinct (providers : List ProviderRef) (seen : List String) :
    (bindingKeys (firstSeen seen providers)).Nodup ∧
      ∀ key ∈ bindingKeys (firstSeen seen providers), key ∉ seen := by
  induction providers generalizing seen with
  | nil => simp [firstSeen, bindingKeys]
  | cons p providers induction =>
      rw [firstSeen]
      split
      · exact induction seen
      · rename_i unseen
        rcases induction (bindingKey p.pair :: seen) with ⟨distinct, fresh⟩
        refine ⟨List.nodup_cons.mpr ⟨fun member => ?_, distinct⟩, ?_⟩
        · exact fresh _ member List.mem_cons_self
        · intro key member
          rcases List.mem_cons.mp member with rfl | later
          · simpa using unseen
          · exact fun inSeen => fresh key later (List.mem_cons_of_mem _ inSeen)

/-- Bindings without duplicates pass `Normalize` unchanged. -/
theorem firstSeen_of_distinct {providers : List ProviderRef} {seen : List String}
    (distinct : (bindingKeys providers).Nodup)
    (fresh : ∀ key ∈ bindingKeys providers, key ∉ seen) : firstSeen seen providers = providers := by
  induction providers generalizing seen with
  | nil => rfl
  | cons p providers induction =>
      rw [bindingKeys, List.map_cons, List.nodup_cons] at distinct
      have unseen : bindingKey p.pair ∉ seen := fresh _ List.mem_cons_self
      rw [firstSeen, if_neg (by simpa using unseen), induction distinct.2]
      intro key member inSeen
      rcases List.mem_cons.mp inSeen with rfl | before
      · exact distinct.1 member
      · exact fresh key (List.mem_cons_of_mem _ member) before

/-- What `bindings.json` can hold: every writer normalises. -/
structure SavedBindings where
  bindings : MangaBindings
  distinct : (bindingKeys bindings.providers).Nodup

namespace SavedBindings

/-- A file that does not exist reads as the zero value. -/
def missing : SavedBindings := ⟨⟨[], none⟩, by simp [bindingKeys]⟩

/-- `saveBindingsLocked`. -/
def save (b : MangaBindings) : SavedBindings :=
  ⟨{ b with providers := firstSeen [] b.providers }, (firstSeen_distinct b.providers []).1⟩

theorem save_of_distinct {b : MangaBindings} (distinct : (bindingKeys b.providers).Nodup) :
    (save b).bindings = b := by
  simp [save, firstSeen_of_distinct distinct]

end SavedBindings

namespace MangaBindings

/-- Some provider of the list has this pair. -/
def binds (b : MangaBindings) (pair : String × String) : Bool :=
  b.providers.any fun p => p.pair == pair

/-- Give the first binding of a pair a title. -/
def retitle (ref : ProviderRef) : List ProviderRef → List ProviderRef
  | [] => []
  | p :: providers =>
      if p.pair = ref.pair then
        (if ref.mangaTitle = "" then p else { p with mangaTitle := ref.mangaTitle }) :: providers
      else p :: retitle ref providers

/-- `AddProvider` up to saving. -/
def addProvider (b : MangaBindings) (ref : ProviderRef) : MangaBindings :=
  if b.binds ref.pair then { b with providers := retitle ref b.providers }
  else { b with providers := b.providers ++ [ref] }

/-- `RemoveProvider` up to saving. -/
def removeProvider (b : MangaBindings) (providerID providerMangaID : String)
    (capabilityLookup : String → List String) : Except String MangaBindings :=
  let newProviders := b.providers.filter fun p => p.pair != (providerID, providerMangaID)
  if !b.binds (providerID, providerMangaID) then
    .error "remove provider: provider binding not found"
  else if b.content.map ContentSource.pair = some (providerID, providerMangaID) then
    if newProviders.any fun p => (capabilityLookup p.providerID).contains "content" then
      .ok { providers := newProviders, content := none }
    else .error "remove provider: cannot remove last content-capable provider"
  else .ok { b with providers := newProviders }

/-- `SwitchContentProvider` up to saving; `title` is the snapshot taken before the
lock. -/
def switchContentProvider (b : MangaBindings) (providerID providerMangaID title readingMode : String) :
    MangaBindings :=
  let providers :=
    if b.binds (providerID, providerMangaID) then b.providers
    else b.providers ++ [{ providerID, providerMangaID, mangaTitle := title }]
  let content := b.content.getD ContentSource.zero
  { providers
    content := some
      { content with
        providerID
        providerMangaID
        readingMode := if readingMode = "" then content.readingMode else readingMode } }

/-- Stamp the content binding. -/
def stamp (b : MangaBindings) (now : Time) : MangaBindings :=
  { b with content := b.content.map fun content => { content with lastSyncedAt := now } }

end MangaBindings

/-! ## Bindings as a set of providers with an active one -/

@[ext] structure BindingsView where
  providers : Set (String × String)
  content : Option (String × String)

def MangaBindings.view (b : MangaBindings) : BindingsView where
  providers := { pair | pair ∈ b.providers.map ProviderRef.pair }
  content := b.content.map ContentSource.pair

/-- A provider call that returned nil, with the binding it named. -/
inductive BindingCall
  | added (pair : String × String)
  | removed (pair : String × String)
  | switched (pair : String × String)
  deriving DecidableEq, Repr

namespace BindingCall

/-- What a call is for. -/
def apply : BindingCall → BindingsView → BindingsView
  | .added pair, view => { view with providers := insert pair view.providers }
  | .removed pair, view =>
      { providers := view.providers \ {pair}
        content := if view.content = some pair then none else view.content }
  | .switched pair, view => { providers := insert pair view.providers, content := some pair }

/-- The effect of a call is there to be seen. -/
def Holds (view : BindingsView) : BindingCall → Prop
  | .added pair => pair ∈ view.providers
  | .removed pair => pair ∉ view.providers
  | .switched pair => view.content = some pair

/-- A later call that takes the effect of an earlier one back. -/
def undoes : BindingCall → BindingCall → Bool
  | .removed pair, .added earlier => pair == earlier
  | .added pair, .removed earlier => pair == earlier
  | .switched pair, .removed earlier => pair == earlier
  | .removed pair, .switched earlier => pair == earlier
  | .switched _, .switched _ => true
  | _, _ => false

/-- In a log with the newest call first, every call that no later one undid holds. -/
def Kept (log : List BindingCall) (view : BindingsView) : Prop :=
  ∀ newer call older, log = newer ++ call :: older →
    (∀ later ∈ newer, later.undoes call = false) → call.Holds view

theorem holds_apply (call : BindingCall) (view : BindingsView) : call.Holds (call.apply view) := by
  cases call <;> simp [Holds, apply]

/-- Frame: a call leaves the effects of the calls that it does not undo. -/
theorem Holds.frame {call later : BindingCall} {view : BindingsView} (holds : call.Holds view)
    (spares : later.undoes call = false) : call.Holds (later.apply view) := by
  cases later with
  | added pair =>
      cases call with
      | added earlier => exact Set.mem_insert_of_mem pair holds
      | removed earlier =>
          have different : pair ≠ earlier := by simpa [undoes] using spares
          intro member
          exact (Set.mem_insert_iff.mp member).elim (fun same => different same.symm) holds
      | switched earlier => exact holds
  | removed pair =>
      cases call with
      | added earlier =>
          have different : pair ≠ earlier := by simpa [undoes] using spares
          exact ⟨holds, fun same => different same.symm⟩
      | removed earlier => exact fun member => holds member.1
      | switched earlier =>
          have different : pair ≠ earlier := by simpa [undoes] using spares
          have active : view.content = some earlier := holds
          simp [Holds, apply, active, different.symm]
  | switched pair =>
      cases call with
      | added earlier => exact Set.mem_insert_of_mem pair holds
      | removed earlier =>
          have different : pair ≠ earlier := by simpa [undoes] using spares
          intro member
          exact (Set.mem_insert_iff.mp member).elim (fun same => different same.symm) holds
      | switched earlier => simp [undoes] at spares

/-- Atomic calls lose nothing. -/
theorem kept_replay (log : List BindingCall) (start : BindingsView) :
    Kept log (log.foldr apply start) := by
  induction log with
  | nil =>
      intro newer call older split
      simp at split
  | cons last log induction =>
      intro newer call older split spared
      cases newer with
      | nil =>
          rw [List.nil_append, List.cons.injEq] at split
          rw [split.1]
          exact holds_apply call _
      | cons first newer =>
          rw [List.cons_append, List.cons.injEq] at split
          have held := induction newer call older split.2 fun later member =>
            spared later (List.mem_cons_of_mem first member)
          rw [List.foldr_cons, split.1]
          exact held.frame (spared first List.mem_cons_self)

end BindingCall

/-! ## The code performs the calls on the view -/

namespace MangaBindings

/-- No other provider has the key under which `Normalize` would keep this pair. -/
def keyFree (b : MangaBindings) (pair : String × String) : Bool :=
  b.providers.all fun p => bindingKey p.pair != bindingKey pair || p.pair == pair

theorem binds_iff {b : MangaBindings} {pair : String × String} :
    b.binds pair = true ↔ pair ∈ b.providers.map ProviderRef.pair := by
  simp [binds]

theorem retitle_pairs (ref : ProviderRef) (providers : List ProviderRef) :
    (retitle ref providers).map ProviderRef.pair = providers.map ProviderRef.pair := by
  induction providers with
  | nil => rfl
  | cons p providers induction =>
      rw [retitle]
      split
      · split <;> rfl
      · rw [List.map_cons, List.map_cons, induction]

theorem bindingKeys_eq (providers : List ProviderRef) :
    bindingKeys providers = (providers.map ProviderRef.pair).map bindingKey := by
  simp [bindingKeys]

/-- An unbound pair whose key is free has a key of its own. -/
theorem key_fresh {b : MangaBindings} {pair : String × String} (unbound : ¬ b.binds pair = true)
    (free : b.keyFree pair = true) : bindingKey pair ∉ bindingKeys b.providers := by
  intro member
  rcases List.mem_map.mp member with ⟨p, inProviders, sameKey⟩
  have checked := List.all_eq_true.mp free p inProviders
  simp only [Bool.or_eq_true, bne_iff_ne, beq_iff_eq] at checked
  have samePair := checked.resolve_left fun different => different sameKey
  exact unbound (binds_iff.mpr (List.mem_map.mpr ⟨p, inProviders, samePair⟩))

theorem append_distinct {b : MangaBindings} {ref : ProviderRef}
    (distinct : (bindingKeys b.providers).Nodup)
    (fresh : bindingKey ref.pair ∉ bindingKeys b.providers) :
    (bindingKeys (b.providers ++ [ref])).Nodup := by
  rw [bindingKeys, List.map_append, List.map_singleton, ← List.concat_eq_append]
  exact List.Nodup.concat fresh distinct

theorem view_append (b : MangaBindings) (ref : ProviderRef) :
    ({ b with providers := b.providers ++ [ref] } : MangaBindings).view =
      { b.view with providers := insert ref.pair b.view.providers } := by
  ext pair
  · simp [view, or_comm, eq_comm]
  · rfl

theorem addProvider_view (stored : SavedBindings) {ref : ProviderRef}
    (free : stored.bindings.keyFree ref.pair = true) :
    (SavedBindings.save (stored.bindings.addProvider ref)).bindings.view =
      (BindingCall.added ref.pair).apply stored.bindings.view := by
  unfold addProvider
  split
  · rename_i bound
    have samePairs := retitle_pairs ref stored.bindings.providers
    have distinct : (bindingKeys (retitle ref stored.bindings.providers)).Nodup := by
      rw [bindingKeys_eq, samePairs, ← bindingKeys_eq]
      exact stored.distinct
    have present : ref.pair ∈ stored.bindings.view.providers := binds_iff.mp bound
    rw [SavedBindings.save_of_distinct distinct, BindingCall.apply, Set.insert_eq_of_mem present]
    simp only [view, samePairs]
  · rename_i unbound
    have distinct := append_distinct stored.distinct (key_fresh unbound free)
    rw [SavedBindings.save_of_distinct distinct, view_append, BindingCall.apply]

theorem removeProvider_view (stored : SavedBindings) {b : MangaBindings}
    {providerID providerMangaID : String} {capabilityLookup : String → List String}
    (removed : stored.bindings.removeProvider providerID providerMangaID capabilityLookup = .ok b) :
    (SavedBindings.save b).bindings.view =
      (BindingCall.removed (providerID, providerMangaID)).apply stored.bindings.view := by
  have distinct : (bindingKeys (stored.bindings.providers.filter
      fun p => p.pair != (providerID, providerMangaID))).Nodup :=
    (List.filter_sublist.map _).nodup stored.distinct
  have left : ∀ pair, pair ∈ (stored.bindings.providers.filter
      fun p => p.pair != (providerID, providerMangaID)).map ProviderRef.pair ↔
      pair ∈ stored.bindings.view.providers \ {(providerID, providerMangaID)} := by
    intro pair
    simp only [view, List.mem_map, List.mem_filter, bne_iff_ne, Set.mem_sdiff, Set.mem_ofPred_eq,
      Set.mem_singleton_iff]
    constructor
    · intro kept
      rcases kept with ⟨p, ⟨member, different⟩, rfl⟩
      exact ⟨⟨p, member, rfl⟩, different⟩
    · intro kept
      rcases kept with ⟨⟨p, member, rfl⟩, different⟩
      exact ⟨p, ⟨member, different⟩, rfl⟩
  unfold removeProvider at removed
  simp only at removed
  split at removed
  · contradiction
  split at removed
  · rename_i active
    split at removed
    · cases removed
      rw [SavedBindings.save_of_distinct distinct]
      ext pair
      · exact left pair
      · simp [view, BindingCall.apply, active]
    · contradiction
  · rename_i inactive
    cases removed
    rw [SavedBindings.save_of_distinct distinct]
    ext pair
    · exact left pair
    · simp [view, BindingCall.apply, inactive]

theorem switchContentProvider_view (stored : SavedBindings)
    {providerID providerMangaID : String} (title readingMode : String)
    (free : stored.bindings.keyFree (providerID, providerMangaID) = true) :
    (SavedBindings.save
      (stored.bindings.switchContentProvider providerID providerMangaID title readingMode)
        ).bindings.view =
      (BindingCall.switched (providerID, providerMangaID)).apply stored.bindings.view := by
  unfold switchContentProvider
  by_cases bound : stored.bindings.binds (providerID, providerMangaID) = true
  · have present : (providerID, providerMangaID) ∈ stored.bindings.view.providers :=
      binds_iff.mp bound
    simp only [if_pos bound]
    refine (congrArg view (SavedBindings.save_of_distinct ?_)).trans ?_
    · exact stored.distinct
    · rw [BindingCall.apply, Set.insert_eq_of_mem present]
      rfl
  · have distinct : (bindingKeys (stored.bindings.providers ++
        [⟨providerID, providerMangaID, title⟩])).Nodup :=
      append_distinct stored.distinct (key_fresh bound free)
    simp only [if_neg bound]
    rw [SavedBindings.save_of_distinct distinct]
    have appended := congrArg BindingsView.providers
      (view_append stored.bindings ⟨providerID, providerMangaID, title⟩)
    exact BindingsView.ext appended rfl

theorem stamp_view (stored : SavedBindings) (now : Time) :
    (SavedBindings.save (stored.bindings.stamp now)).bindings.view = stored.bindings.view := by
  have distinct : (bindingKeys (stored.bindings.stamp now).providers).Nodup := stored.distinct
  rw [SavedBindings.save_of_distinct distinct]
  ext pair
  · rfl
  · cases content : stored.bindings.content <;> simp [view, stamp, content, ContentSource.pair]

/-- The same providers and the same active binding, whatever titles and stamps. -/
def sameView (left right : MangaBindings) : Bool :=
  (left.providers.all fun p => right.binds p.pair) &&
    (right.providers.all fun p => left.binds p.pair) &&
    left.content.map ContentSource.pair == right.content.map ContentSource.pair

theorem view_of_sameView {left right : MangaBindings} (same : left.sameView right = true) :
    left.view = right.view := by
  simp only [sameView, Bool.and_eq_true, List.all_eq_true, beq_iff_eq] at same
  rcases same with ⟨⟨leftInRight, rightInLeft⟩, sameContent⟩
  have includes : ∀ {first second : MangaBindings},
      (∀ p ∈ first.providers, second.binds p.pair = true) →
      ∀ pair, pair ∈ first.view.providers → pair ∈ second.view.providers := by
    intro first second bound pair member
    rcases List.mem_map.mp member with ⟨p, inFirst, rfl⟩
    exact binds_iff.mp (bound p inFirst)
  ext pair
  · exact ⟨includes leftInRight pair, includes rightInLeft pair⟩
  · simp [view, sameContent]

end MangaBindings

end Kiyomi.Library
