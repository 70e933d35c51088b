import Kiyomi.Library.BindingSections

namespace Kiyomi.Library

open Go

/-! # Valid bindings

Providers are bound once and the active content binding is one of them. `Normalize` tells
bindings apart by a joined text, so of two bindings under one key it drops the later. -/

/-- No binding under the key of the pair comes before the pair itself. -/
def leads (providers : List ProviderRef) (pair : String × String) : Bool :=
  (providers.find? fun p => bindingKey p.pair == bindingKey pair).all fun p => p.pair == pair

theorem not_mem_firstSeen {providers : List ProviderRef} {seen : List String}
    {pair : String × String} (inSeen : bindingKey pair ∈ seen) :
    pair ∉ (firstSeen seen providers).map ProviderRef.pair := by
  intro member
  have isKey : bindingKey pair ∈ bindingKeys (firstSeen seen providers) := by
    rw [MangaBindings.bindingKeys_eq]
    exact List.mem_map_of_mem member
  exact (firstSeen_distinct providers seen).2 _ isKey inSeen

/-- A bound pair survives `Normalize` if its key was not seen and it is the first under it. -/
theorem mem_firstSeen {providers : List ProviderRef} {seen : List String}
    {pair : String × String} (member : pair ∈ providers.map ProviderRef.pair) :
    pair ∈ (firstSeen seen providers).map ProviderRef.pair ↔
      bindingKey pair ∉ seen ∧ leads providers pair = true := by
  induction providers generalizing seen with
  | nil => exact absurd member List.not_mem_nil
  | cons p providers induction =>
      rw [firstSeen]
      by_cases sameKey : bindingKey p.pair = bindingKey pair
      · have first : leads (p :: providers) pair = (p.pair == pair) := by
          simp [leads, sameKey]
        rw [first, sameKey, beq_iff_eq]
        split
        · rename_i inSeen
          have inSeen : bindingKey pair ∈ seen := by simpa using inSeen
          exact ⟨fun kept => absurd kept (not_mem_firstSeen inSeen),
            fun unseen => absurd inSeen unseen.1⟩
        · rename_i unseen
          have unseen : bindingKey pair ∉ seen := by simpa using unseen
          rw [List.map_cons, List.mem_cons]
          constructor
          · rintro (same | later)
            · exact ⟨unseen, same.symm⟩
            · exact absurd later (not_mem_firstSeen List.mem_cons_self)
          · exact fun both => .inl both.2.symm
      · have later : pair ∈ providers.map ProviderRef.pair := by
          rcases List.mem_cons.mp member with rfl | later
          · exact absurd rfl sameKey
          · exact later
        have skips : leads (p :: providers) pair = leads providers pair := by
          simp [leads, sameKey]
        have other : pair ≠ p.pair := fun same => sameKey (by rw [same])
        rw [skips]
        split
        · exact induction later
        · rw [List.map_cons, List.mem_cons, induction later, List.mem_cons, not_or]
          constructor
          · rintro (same | ⟨⟨_, unseen⟩, isFirst⟩)
            · exact absurd same other
            · exact ⟨unseen, isFirst⟩
          · exact fun both => .inr ⟨⟨fun same => sameKey same.symm, both.1⟩, both.2⟩

namespace MangaBindings

structure Valid (b : MangaBindings) : Prop where
  distinct : (b.providers.map ProviderRef.pair).Nodup
  bound : ∀ content ∈ b.content, b.binds content.pair = true

/-- The content binding is the first under its key. -/
def contentLeads (b : MangaBindings) : Bool :=
  b.content.all fun content => leads b.providers content.pair

/-- Saving bindings whose content is bound keeps them valid exactly if it keeps the
content binding. -/
theorem normalize_valid_iff {b : MangaBindings}
    (bound : ∀ content ∈ b.content, b.binds content.pair = true) :
    b.normalize.Valid ↔ b.contentLeads = true := by
  have distinct : (b.normalize.providers.map ProviderRef.pair).Nodup := by
    have keys := (firstSeen_distinct b.providers []).1
    rw [bindingKeys_eq] at keys
    exact keys.of_map _
  have kept : ∀ content ∈ b.content,
      b.normalize.binds content.pair = true ↔ leads b.providers content.pair = true := by
    intro content active
    rw [binds_iff, normalize, mem_firstSeen (binds_iff.mp (bound content active))]
    exact and_iff_right List.not_mem_nil
  rw [contentLeads, Option.all_eq_true]
  exact ⟨fun valid content active => (kept content active).mp (valid.bound content active),
    fun first => ⟨distinct, fun content active => (kept content active).mpr (first content active)⟩⟩

/-- What comes behind does not change which binding is first. -/
theorem leads_append {providers : List ProviderRef} {pair : String × String}
    (member : pair ∈ providers.map ProviderRef.pair) (more : List ProviderRef) :
    leads (providers ++ more) pair = leads providers pair := by
  rcases List.mem_map.mp member with ⟨p, inProviders, rfl⟩
  have found : (providers.find? fun other => bindingKey other.pair == bindingKey p.pair).isSome := by
    rw [List.find?_isSome]
    exact ⟨p, inProviders, by simp⟩
  rw [leads, List.find?_append, Option.or_of_isSome found, leads]

/-- Only the pairs matter. -/
theorem leads_congr {left right : List ProviderRef} {pair : String × String}
    (same : left.map ProviderRef.pair = right.map ProviderRef.pair) :
    leads left pair = leads right pair := by
  have byPairs : ∀ providers : List ProviderRef, leads providers pair =
      ((providers.map ProviderRef.pair).find? fun q => bindingKey q == bindingKey pair).all
        fun q => q == pair := by
    intro providers
    rw [List.find?_map, Option.all_map]
    rfl
  rw [byPairs, byPairs, same]

/-! ## The operations -/

variable {b : MangaBindings}

theorem addProvider_valid_iff (valid : b.Valid) (ref : ProviderRef) :
    (b.addProvider ref).normalize.Valid ↔ b.contentLeads = true := by
  unfold addProvider
  split
  · have samePairs := retitle_pairs ref b.providers
    rw [normalize_valid_iff]
    · simp only [contentLeads, leads_congr samePairs]
    · intro content active
      rw [binds_iff, samePairs]
      exact binds_iff.mp (valid.bound content active)
  · have member : ∀ content ∈ b.content, content.pair ∈ b.providers.map ProviderRef.pair :=
      fun content active => binds_iff.mp (valid.bound content active)
    rw [normalize_valid_iff]
    · rw [contentLeads, contentLeads, Option.all_eq_true, Option.all_eq_true]
      exact forall₂_congr fun content active => by rw [leads_append (member content active)]
    · intro content active
      rw [binds_iff, List.map_append]
      exact List.mem_append_left _ (member content active)

theorem removeProvider_unbound {providerID providerMangaID : String}
    {capabilityLookup : String → List String} {changed : MangaBindings}
    (removed : b.removeProvider providerID providerMangaID capabilityLookup = .ok changed) :
    b.binds (providerID, providerMangaID) = true := by
  unfold removeProvider at removed
  split at removed
  · contradiction
  · rename_i bound
    simpa using bound

/-- A refused removal finds the pair unbound or active. -/
theorem removeProvider_refused {providerID providerMangaID : String}
    {capabilityLookup : String → List String} {message : String}
    (refused : b.removeProvider providerID providerMangaID capabilityLookup = .error message) :
    b.binds (providerID, providerMangaID) = false ∨
      b.content.map ContentSource.pair = some (providerID, providerMangaID) := by
  unfold removeProvider at refused
  simp only at refused
  split at refused
  · rename_i unbound
    exact .inl (by simpa using unbound)
  · split at refused
    · rename_i active
      exact .inr active
    · contradiction

theorem removeProvider_valid_iff (valid : b.Valid) {providerID providerMangaID : String}
    {capabilityLookup : String → List String} {changed : MangaBindings}
    (removed : b.removeProvider providerID providerMangaID capabilityLookup = .ok changed) :
    changed.normalize.Valid ↔
      (b.content.all fun content => content.pair == (providerID, providerMangaID) ||
        leads (b.providers.filter fun p => p.pair != (providerID, providerMangaID))
          content.pair) = true := by
  unfold removeProvider at removed
  simp only at removed
  split at removed
  · contradiction
  split at removed
  · rename_i active
    split at removed
    · cases removed
      rw [normalize_valid_iff (by simp)]
      cases content : b.content with
      | none => simp [content] at active
      | some source =>
          have same : source.pair = (providerID, providerMangaID) := by simpa [content] using active
          simp [contentLeads, same]
    · contradiction
  · rename_i inactive
    cases removed
    have other : ∀ content ∈ b.content, content.pair ≠ (providerID, providerMangaID) := by
      intro content active same
      rw [Option.mem_def.mp active] at inactive
      exact inactive (congrArg some same)
    rw [normalize_valid_iff]
    · rw [contentLeads, Option.all_eq_true, Option.all_eq_true]
      exact forall₂_congr fun content active => by simp [other content active]
    · intro content active
      rcases List.mem_map.mp (binds_iff.mp (valid.bound content active)) with ⟨p, member, same⟩
      rw [binds_iff, ← same]
      refine List.mem_map_of_mem (List.mem_filter.mpr ⟨member, ?_⟩)
      rw [same]
      simpa using other content active

theorem switchContentProvider_valid_iff (b : MangaBindings)
    (providerID providerMangaID title readingMode : String) :
    (b.switchContentProvider providerID providerMangaID title readingMode).normalize.Valid ↔
      leads b.providers (providerID, providerMangaID) = true := by
  unfold switchContentProvider
  split
  · rename_i bound
    rw [normalize_valid_iff]
    · simp [contentLeads, ContentSource.pair]
    · rintro content ⟨rfl⟩
      exact bound
  · rename_i unbound
    rw [normalize_valid_iff]
    · simp only [contentLeads, ContentSource.pair, Option.all_some]
      -- the new binding is last, so it is first under its key if nothing else has that key
      cases other : b.providers.find? fun p =>
          bindingKey p.pair == bindingKey (providerID, providerMangaID) with
      | none =>
          simp only [leads, List.find?_append, other]
          simp [ProviderRef.pair]
      | some p => simp [leads, List.find?_append, other]
    · rintro content ⟨rfl⟩
      simp [binds, ContentSource.pair, ProviderRef.pair]

theorem stamp_valid_iff (valid : b.Valid) (now : Time) :
    (b.stamp now).normalize.Valid ↔ b.contentLeads = true := by
  rw [normalize_valid_iff]
  · cases content : b.content <;> simp [contentLeads, stamp, content, ContentSource.pair]
  · intro content active
    rcases Option.map_eq_some_iff.mp (Option.mem_def.mp active) with ⟨before, was, rfl⟩
    exact valid.bound before was

end MangaBindings

end Kiyomi.Library
