import Kiyomi.Api.MergeFaults
import Kiyomi.Foundation.Unions
import Kiyomi.Library.BindingSections
import Kiyomi.Library.MangaSaves

namespace Kiyomi.Api

open Go Library

/-! # The map orders of a merge

`mergeLibraryManga` keeps its sources in a map and ranges over it, and over a second map of
their provider lists, in orders that change from run to run. -/

deriving instance DecidableEq for Manga

/-- The order in which a `range` over a map of the sources visits them. -/
structure RangeOrder where
  visit : List (String × Manga) → List (String × Manga)
  visits : ∀ sources, (visit sources).Perm sources

namespace RangeOrder

def listed : RangeOrder := ⟨id, .refl⟩

def reversed : RangeOrder := ⟨List.reverse, List.reverse_perm⟩

/-- The order that visits some sources in a given way. -/
def only (sources first : List (String × Manga)) (isOrder : first.Perm sources) : RangeOrder where
  visit others := if others = sources then first else others
  visits others := by
    split
    · rename_i same
      exact same ▸ isOrder
    · exact .refl others

end RangeOrder

/-- The loop of step 3 and that of `mergeProviderRefs`. -/
structure MapOrders where
  metadata : RangeOrder
  providers : RangeOrder

/-- Steps 3 and 4 when the loops visit the sources in these orders. -/
def planMergeIn (orders : MapOrders) (body : MergeRequest) (keepInfo : Manga)
    (sources : List (String × Manga)) : Except MergeRefusal MergePlan :=
  (planMerge body keepInfo (orders.providers.visit sources)).map fun plan =>
    { plan with metadata := mergedMetadata body keepInfo (orders.metadata.visit sources) }

namespace MergeEffects

variable {Question : Type} {Answer : Question → Type}
variable (l : Layout)

/-- Steps 1 and 2. -/
def loadMerged (body : MergeRequest) :
    Effect Answer (Except MergeRefusal (Manga × List (String × Manga))) :=
  match body.refusal with
  | some refusal => pure (.error refusal)
  | none => do
      match ← Effects.getManga l body.keepMangaID with
      | none => pure (.error (.mangaNotFound body.keepMangaID))
      | some keepInfo =>
          match ← loadSources l body.sourceMangaIDs with
          | .error srcID => pure (.error (.mangaNotFound srcID))
          | .ok sources => pure (.ok (keepInfo, sources))

/-- Steps 5 to 9. -/
def performPlan (body : MergeRequest) : Except MergeRefusal MergePlan → Effect Answer MergeReply
  | .error refusal => pure ⟨.error (.refused refusal), []⟩
  | .ok plan => do
      let deleted ← carryOut l body plan
      finishMerge l body plan deleted

/-- `mergeLibraryManga` when its loops visit the sources in these orders. -/
def mergeLibraryMangaIn (orders : MapOrders) (body : MergeRequest) : Effect Answer MergeReply := do
  let loaded ← loadMerged l body
  performPlan l body (loaded.bind fun concerns => planMergeIn orders body concerns.1 concerns.2)

theorem planMergeIn_listed (body : MergeRequest) (keepInfo : Manga)
    (sources : List (String × Manga)) :
    planMergeIn ⟨.listed, .listed⟩ body keepInfo sources = planMerge body keepInfo sources := by
  change (planMerge body keepInfo sources).map _ = _
  cases planned : planMerge body keepInfo sources with
  | error refusal => rfl
  | ok plan =>
      rw [planMerge] at planned
      split at planned
      · contradiction
      · split at planned
        · contradiction
        · cases planned
          rfl

/-- The model without orders visits the sources as the request lists them. -/
theorem mergeLibraryMangaIn_listed (body : MergeRequest) :
    (mergeLibraryMangaIn l ⟨.listed, .listed⟩ body : Effect Answer MergeReply) =
      mergeLibraryManga l body := by
  have plans : ∀ concerns : Manga × List (String × Manga),
      planMergeIn ⟨.listed, .listed⟩ body concerns.1 concerns.2 =
        planMerge body concerns.1 concerns.2 :=
    fun concerns => planMergeIn_listed body concerns.1 concerns.2
  simp only [mergeLibraryMangaIn, mergeLibraryManga, prepareMerge, loadMerged, plans]
  cases body.refusal with
  | some refusal => rfl
  | none =>
      rw [Program.bind_assoc, Program.bind_assoc]
      congr 1
      funext keep
      cases keep with
      | none => rfl
      | some keepInfo =>
          simp only [Program.bind_assoc]
          congr 1
          funext sources
          cases sources with
          | error srcID => rfl
          | ok sources =>
              change performPlan l body (planMerge body keepInfo sources) = _
              cases planned : planMerge body keepInfo sources with
              | error refusal => simp [performPlan, planned]
              | ok plan => simp [performPlan, planned]

end MergeEffects

/-! ## The sources by id -/

theorem loadSources_distinct {l : Layout} {disk : Disk} {ids : List String}
    {loaded : List (String × Manga)} (ok : loadSources l disk ids = .ok loaded) :
    (loaded.map Prod.fst).Nodup := by
  induction ids generalizing loaded with
  | nil =>
      cases ok
      exact .nil
  | cons id ids induction =>
      rw [loadSources] at ok
      split at ok
      · contradiction
      · cases rest : loadSources l disk ids with
        | error missing => simp [rest, Except.map] at ok
        | ok others =>
            rw [rest] at ok
            cases ok
            rw [List.map_cons, List.nodup_cons]
            refine ⟨by simp, ?_⟩
            exact ((List.filter_sublist).map Prod.fst).nodup (induction rest)

/-- What a map holds does not depend on the order of its entries. -/
theorem lookup_perm {left right : List (String × Manga)} (perm : left.Perm right)
    (distinct : (left.map Prod.fst).Nodup) (id : String) : left.lookup id = right.lookup id := by
  induction perm with
  | nil => rfl
  | cons entry _ induction =>
      rw [List.lookup_cons, List.lookup_cons, induction (List.nodup_cons.mp distinct).2]
  | swap first second rest =>
      rcases first with ⟨key, value⟩
      rcases second with ⟨key', value'⟩
      simp only [List.map_cons, List.nodup_cons, List.mem_cons, not_or] at distinct
      simp only [List.lookup_cons]
      by_cases isSecond : id = key'
      · have other : (id == key) = false := by simp [isSecond, distinct.1.1]
        simp only [other]
      · have other : (id == key') = false := by simp [isSecond]
        simp only [other]
  | trans front _ induction induction' =>
      exact (induction distinct).trans (induction' ((front.map _).nodup distinct))

/-! ## What the sources add -/

/-- The lists of the metadata that the merge unites. -/
def unitedLists : List (MangaMetadata → Option (List String)) :=
  [MangaMetadata.aliases, MangaMetadata.tags, MangaMetadata.authors, MangaMetadata.artists,
    MangaMetadata.publishers]

/-- The names that a list adds to what is left of the kept one. -/
def addedNames (toLower : String → String) (kept more : Option (List String)) : List String :=
  keepFirst trimSpace toLower ((keepFirst trimSpace toLower [] (kept.getD [])).map toLower)
    (more.getD [])

/-- The bindings that a list adds to what is left of the kept one. -/
def addedProviders (kept more : List ProviderRef) : List ProviderRef :=
  firstSeen (bindingKeys (firstSeen [] kept)) more

/-- Of what any two sources add to a list, one begins with the other. -/
structure Accord (toLower : String → String) (keepInfo : Manga) (sources : List (String × Manga)) :
    Prop where
  names : ∀ list ∈ unitedLists, ∀ left ∈ sources, ∀ right ∈ sources,
    Chained (addedNames toLower (list keepInfo.metadata) (list left.2.metadata))
      (addedNames toLower (list keepInfo.metadata) (list right.2.metadata))
  providers : ∀ left ∈ sources, ∀ right ∈ sources,
    Chained (addedProviders keepInfo.bindings.providers left.2.bindings.providers)
      (addedProviders keepInfo.bindings.providers right.2.bindings.providers)

section Unions

variable {toLower : String → String} {body : MergeRequest} {keepInfo : Manga}
  {sources : List (String × Manga)}

theorem firstSeen_eq_unseen (seen : List String) (providers : List ProviderRef) :
    firstSeen seen providers = unseen (fun p => bindingKey p.pair) seen providers := by
  induction providers generalizing seen with
  | nil => rfl
  | cons p providers induction =>
      rw [firstSeen, unseen, induction, induction]
      simp only [List.contains_iff_mem]

/-- The entries that `deduplicateSlice` compares. -/
def trimmedNames (items : Option (List String)) : List String :=
  ((items.getD []).map trimSpace).filter (· ≠ "")

theorem getD_deduplicateSlice (items : Option (List String)) :
    (deduplicateSlice toLower items).getD [] = unseen toLower [] (trimmedNames items) := by
  cases items with
  | none => rfl
  | some items => exact keepFirst_eq_unseen [] items

theorem getD_appendSlice (items more : Option (List String)) :
    (appendSlice items more).getD [] = items.getD [] ++ more.getD [] := by
  rcases more with _ | _ | ⟨first, rest⟩
  · simp [appendSlice]
  · simp [appendSlice]
  · rfl

theorem isSome_appendSlice (items more : Option (List String)) :
    (appendSlice items more).isSome = (items.isSome || !(more.getD []).isEmpty) := by
  rcases more with _ | _ | ⟨first, rest⟩
  · simp [appendSlice]
  · simp [appendSlice]
  · simp [appendSlice]

/-- The names of all sources after those of the kept manga. -/
def united (list : MangaMetadata → Option (List String)) (keepInfo : Manga)
    (sources : List (String × Manga)) : Option (List String) :=
  sources.foldl (fun items source => appendSlice items (list source.2.metadata))
    (list keepInfo.metadata)

theorem trimmedNames_united (list : MangaMetadata → Option (List String)) :
    trimmedNames (united list keepInfo sources) = trimmedNames (list keepInfo.metadata) ++
      sources.flatMap fun source => trimmedNames (list source.2.metadata) := by
  rw [united]
  generalize list keepInfo.metadata = items
  induction sources generalizing items with
  | nil => simp
  | cons source sources induction =>
      rw [List.foldl_cons, induction, List.flatMap_cons, ← List.append_assoc]
      simp [trimmedNames, getD_appendSlice]

theorem isSome_united (list : MangaMetadata → Option (List String)) :
    (united list keepInfo sources).isSome = ((list keepInfo.metadata).isSome ||
      sources.any fun source => !((list source.2.metadata).getD []).isEmpty) := by
  rw [united]
  generalize list keepInfo.metadata = items
  induction sources generalizing items with
  | nil => simp
  | cons source sources induction =>
      rw [List.foldl_cons, induction, isSome_appendSlice, List.any_cons, Bool.or_assoc]

/-- Deduplicated, two orders give the same list exactly if they unite what is added alike. -/
theorem deduplicateSlice_united_iff (list : MangaMetadata → Option (List String))
    {first second : List (String × Manga)} (isFirst : first.Perm sources)
    (isSecond : second.Perm sources) :
    deduplicateSlice toLower (united list keepInfo first) =
        deduplicateSlice toLower (united list keepInfo second) ↔
      unseen toLower ((unseen toLower [] (trimmedNames (list keepInfo.metadata))).map toLower)
          (first.flatMap fun source => trimmedNames (list source.2.metadata)) =
        unseen toLower ((unseen toLower [] (trimmedNames (list keepInfo.metadata))).map toLower)
          (second.flatMap fun source => trimmedNames (list source.2.metadata)) := by
  have whole : ∀ order : List (String × Manga),
      (deduplicateSlice toLower (united list keepInfo order)).getD [] =
        unseen toLower [] (trimmedNames (list keepInfo.metadata)) ++
          unseen toLower ((unseen toLower [] (trimmedNames (list keepInfo.metadata))).map toLower)
            (order.flatMap fun source => trimmedNames (list source.2.metadata)) := by
    intro order
    rw [getD_deduplicateSlice, trimmedNames_united, unseen_append, List.append_nil]
  have present : ∀ {order : List (String × Manga)}, order.Perm sources →
      (deduplicateSlice toLower (united list keepInfo order)).isSome =
        (united list keepInfo sources).isSome := by
    intro order perm
    rw [deduplicateSlice, Option.isSome_map, isSome_united, isSome_united, perm.any_eq]
  constructor
  · intro same
    have lists := congrArg (Option.getD · []) same
    simp only [whole] at lists
    exact List.append_cancel_left lists
  · intro same
    have lists := (whole first).trans ((congrArg _ same).trans (whole second).symm)
    have both := (present isFirst).trans (present isSecond).symm
    cases left : deduplicateSlice toLower (united list keepInfo first) with
    | none =>
        rw [left] at both
        exact (Option.isNone_iff_eq_none.mp (by simpa using both.symm)).symm
    | some names =>
        rw [left] at both lists
        rcases Option.isSome_iff_exists.mp both.symm with ⟨names', right⟩
        rw [right] at lists ⊢
        exact congrArg some lists

/-- The loop of step 3 unites the lists one by one. -/
theorem appended_eq (kept : MangaMetadata) (sources : List (String × Manga)) :
    sources.foldl (fun (mergedMeta : MangaMetadata) source =>
      let sourceMeta := source.2.metadata
      { mergedMeta with
        aliases := appendSlice mergedMeta.aliases sourceMeta.aliases
        tags := appendSlice mergedMeta.tags sourceMeta.tags
        authors := appendSlice mergedMeta.authors sourceMeta.authors
        artists := appendSlice mergedMeta.artists sourceMeta.artists
        publishers := appendSlice mergedMeta.publishers sourceMeta.publishers }) kept =
      let unite (list : MangaMetadata → Option (List String)) :=
        sources.foldl (fun items source => appendSlice items (list source.2.metadata)) (list kept)
      { kept with
        aliases := unite MangaMetadata.aliases
        tags := unite MangaMetadata.tags
        authors := unite MangaMetadata.authors
        artists := unite MangaMetadata.artists
        publishers := unite MangaMetadata.publishers } := by
  induction sources generalizing kept with
  | nil => rfl
  | cons source sources induction =>
      rw [List.foldl_cons, induction]
      rfl

theorem selectedSource_perm {first second : List (String × Manga)} (perm : first.Perm second)
    (distinct : (first.map Prod.fst).Nodup) (field : String) :
    selectedSource body first field = selectedSource body second field := by
  simp only [selectedSource, lookup_perm perm distinct]

/-- What is saved under two orders is the same exactly if the lists are. -/
theorem saved_eq_iff {first second : List (String × Manga)} (perm : first.Perm second)
    (distinct : (first.map Prod.fst).Nodup) :
    (mergedMetadata body keepInfo first).saved toLower =
        (mergedMetadata body keepInfo second).saved toLower ↔
      ∀ list ∈ unitedLists, deduplicateSlice toLower (united list keepInfo first) =
        deduplicateSlice toLower (united list keepInfo second) := by
  simp only [mergedMetadata, appended_eq, selectedSource_perm perm distinct, MangaMetadata.saved,
    unitedLists, List.forall_mem_cons, MangaMetadata.mk.injEq, united]
  simp only [true_and, and_true, List.not_mem_nil, IsEmpty.forall_iff, implies_true]
  tauto

theorem addedNames_eq (list : MangaMetadata → Option (List String)) (source : String × Manga) :
    addedNames toLower (list keepInfo.metadata) (list source.2.metadata) =
      unseen toLower ((unseen toLower [] (trimmedNames (list keepInfo.metadata))).map toLower)
        (trimmedNames (list source.2.metadata)) := by
  simp only [addedNames, keepFirst_eq_unseen, trimmedNames]

theorem addedProviders_eq (kept more : List ProviderRef) :
    addedProviders kept more =
      unseen (fun p => bindingKey p.pair) (bindingKeys (firstSeen [] kept)) more :=
  firstSeen_eq_unseen _ _

theorem mergeProviderRefs_eq (kept : List ProviderRef) (sources : List (String × Manga)) :
    mergeProviderRefs kept sources = firstSeen [] kept ++
      unseen (fun p => bindingKey p.pair) (bindingKeys (firstSeen [] kept))
        (sources.flatMap fun source => source.2.bindings.providers) := by
  rw [mergeProviderRefs, firstSeen_eq_unseen, unseen_append, List.append_nil, firstSeen_eq_unseen,
    bindingKeys]

/-- Saving drops nothing from the merged providers. -/
theorem firstSeen_mergeProviderRefs (kept : List ProviderRef) (sources : List (String × Manga)) :
    firstSeen [] (mergeProviderRefs kept sources) = mergeProviderRefs kept sources := by
  rw [mergeProviderRefs]
  exact firstSeen_of_distinct (firstSeen_distinct _ []).1 (by simp)

/-- The orders do not matter exactly if the sources are in accord. -/
theorem accord_iff (distinct : (sources.map Prod.fst).Nodup) :
    Accord toLower keepInfo sources ↔ ∀ first second : MapOrders,
      (mergedMetadata body keepInfo (first.metadata.visit sources)).saved toLower =
          (mergedMetadata body keepInfo (second.metadata.visit sources)).saved toLower ∧
        mergeProviderRefs keepInfo.bindings.providers (first.providers.visit sources) =
          mergeProviderRefs keepInfo.bindings.providers (second.providers.visit sources) := by
  have saved : ∀ first second : List (String × Manga), first.Perm sources → second.Perm sources →
      ((mergedMetadata body keepInfo first).saved toLower =
          (mergedMetadata body keepInfo second).saved toLower ↔
        ∀ list ∈ unitedLists, deduplicateSlice toLower (united list keepInfo first) =
          deduplicateSlice toLower (united list keepInfo second)) :=
    fun first second isFirst isSecond => saved_eq_iff (isFirst.trans isSecond.symm)
      ((isFirst.map Prod.fst).nodup_iff.mpr distinct)
  have names := fun list : MangaMetadata → Option (List String) =>
    @unseen_perm_iff _ _ _ _ toLower
      ((unseen toLower [] (trimmedNames (list keepInfo.metadata))).map toLower)
      (fun source : String × Manga => trimmedNames (list source.2.metadata)) sources
  have providers := @unseen_perm_iff _ _ _ _ (fun p : ProviderRef => bindingKey p.pair)
    (bindingKeys (firstSeen [] keepInfo.bindings.providers))
    (fun source : String × Manga => source.2.bindings.providers) sources
  constructor
  · intro accord first second
    constructor
    · rw [saved _ _ (first.metadata.visits sources) (second.metadata.visits sources)]
      intro list isList
      rw [deduplicateSlice_united_iff list (first.metadata.visits sources)
        (second.metadata.visits sources)]
      refine (names list).mpr ?_ _ _ (first.metadata.visits sources)
        (second.metadata.visits sources)
      intro left isLeft right isRight
      rw [← addedNames_eq, ← addedNames_eq]
      exact accord.names list isList left isLeft right isRight
    · rw [mergeProviderRefs_eq, mergeProviderRefs_eq]
      refine congrArg _ (providers.mpr ?_ _ _ (first.providers.visits sources)
        (second.providers.visits sources))
      intro left isLeft right isRight
      rw [← addedProviders_eq, ← addedProviders_eq]
      exact accord.providers left isLeft right isRight
  · intro same
    constructor
    · intro list isList left isLeft right isRight
      rw [addedNames_eq, addedNames_eq]
      refine (names list).mp ?_ left isLeft right isRight
      intro first second isFirst isSecond
      have agree := (same ⟨.only sources first isFirst, .listed⟩
        ⟨.only sources second isSecond, .listed⟩).1
      simp only [RangeOrder.only, if_true] at agree
      exact (deduplicateSlice_united_iff list isFirst isSecond).mp
        ((saved first second isFirst isSecond).mp agree list isList)
    · intro left isLeft right isRight
      rw [addedProviders_eq, addedProviders_eq]
      refine providers.mp ?_ left isLeft right isRight
      intro first second isFirst isSecond
      have agree := (same ⟨.listed, .only sources first isFirst⟩
        ⟨.listed, .only sources second isSecond⟩).2
      simp only [RangeOrder.only, if_true, mergeProviderRefs_eq] at agree
      exact List.append_cancel_left agree

end Unions

/-! ## Two runs -/

/-- Steps 1 and 2 when nothing is refused. -/
def loadedFrom (l : Layout) (disk : Disk) (body : MergeRequest) :
    Except MergeRefusal (Manga × List (String × Manga)) :=
  match body.refusal with
  | some refusal => .error refusal
  | none =>
      match l.getManga disk body.keepMangaID with
      | none => .error (.mangaNotFound body.keepMangaID)
      | some keepInfo =>
          match loadSources l disk body.sourceMangaIDs with
          | .error srcID => .error (.mangaNotFound srcID)
          | .ok sources => .ok (keepInfo, sources)

/-- A run of the request whose loops visit the sources in these orders. The choices tell how
the system answers one call after another; those that the run does not get to are left. -/
def MergesIn (l : Layout) (orders : MapOrders) (body : MergeRequest) (disk : Disk)
    (choices : List (FileChoice NoAnswer)) (disk' : Disk) : Prop :=
  ∃ used later reply files, choices = used ++ later ∧
    (MergeEffects.mergeLibraryMangaIn l orders body).run Files.respond (.ofTree disk) used =
      some (reply, files) ∧ files.tree = disk'

/-- The kept manga has the same metadata, the same providers in the same order with the same
titles, and the same chapters. -/
structure SameMerge (l : Layout) (body : MergeRequest) (left right : Disk) : Prop where
  metadata : l.getMetadata left body.keepMangaID = l.getMetadata right body.keepMangaID
  providers : (l.getBindings left body.keepMangaID).map MangaBindings.providers =
    (l.getBindings right body.keepMangaID).map MangaBindings.providers
  chapters : SameChapters (body.keepDir l) left right

/-- Two runs that differ only in the map orders leave the same manga. -/
def Deterministic (l : Layout) (disk : Disk) (body : MergeRequest) : Prop :=
  ∀ first second choices left right, MergesIn l first body disk choices left →
    MergesIn l second body disk choices right → SameMerge l body left right

/-- The kept manga binds the content provider of the merge, or a source adds it. -/
def BindsContent (body : MergeRequest) (keepInfo : Manga) (sources : List (String × Manga)) :
    Prop :=
  ∃ pair, body.contentProvider.or (keepInfo.bindings.content.map ContentSource.pair) = some pair ∧
    (pair ∈ (firstSeen [] keepInfo.bindings.providers).map ProviderRef.pair ∨
      ∃ source ∈ sources, pair ∈
        (addedProviders keepInfo.bindings.providers source.2.bindings.providers).map
          ProviderRef.pair)

section Plans

variable {l : Layout} {disk : Disk} {body : MergeRequest} {keepInfo : Manga}
  {sources : List (String × Manga)} {orders : MapOrders}

theorem loadedFrom_ok (ok : loadedFrom l disk body = .ok (keepInfo, sources)) :
    l.getManga disk body.keepMangaID = some keepInfo ∧
      loadSources l disk body.sourceMangaIDs = .ok sources := by
  rw [loadedFrom] at ok
  split at ok
  · contradiction
  · split at ok
    · contradiction
    · rename_i found
      split at ok
      · contradiction
      · rename_i loaded
        cases ok
        exact ⟨found, loaded⟩

/-- The merged providers bind the content provider. -/
def Accepts (orders : MapOrders) (keepInfo : Manga) (sources : List (String × Manga))
    (pair : String × String) : Prop :=
  pair ∈ (mergeProviderRefs keepInfo.bindings.providers (orders.providers.visit sources)).map
    ProviderRef.pair

instance (pair : String × String) : Decidable (Accepts orders keepInfo sources pair) :=
  inferInstanceAs (Decidable (pair ∈ _))

theorem planMergeIn_eq (distinct : (sources.map Prod.fst).Nodup) :
    planMergeIn orders body keepInfo sources =
      match body.contentProvider.or (keepInfo.bindings.content.map ContentSource.pair) with
      | none => .error .contentProviderUnknown
      | some pair =>
          if Accepts orders keepInfo sources pair then .ok
            { metadata := mergedMetadata body keepInfo (orders.metadata.visit sources)
              bindings :=
                { providers := mergeProviderRefs keepInfo.bindings.providers
                    (orders.providers.visit sources)
                  content := some
                    { ContentSource.zero with
                      providerID := pair.1
                      providerMangaID := pair.2
                      readingMode := keepReadingMode keepInfo.bindings.content } }
              cover := (selectedSource body sources "cover_url").map Prod.fst }
          else .error .contentProviderUnbound := by
  have visited := orders.providers.visits sources
  have selected := @selectedSource_perm body _ _ visited
    ((visited.map Prod.fst).nodup_iff.mpr distinct) "cover_url"
  simp only [planMergeIn, planMerge]
  cases body.contentProvider.or (keepInfo.bindings.content.map ContentSource.pair) with
  | none => rfl
  | some pair =>
      simp only
      by_cases bound : Accepts orders keepInfo sources pair
      · rw [if_pos bound, if_neg, selected]
        · rfl
        · rcases List.mem_map.mp bound with ⟨p, member, rfl⟩
          simpa using ⟨p, member, rfl⟩
      · rw [if_neg bound, if_pos]
        · rfl
        · rw [Accepts] at bound
          simpa using bound

/-- What the merged providers bind was bound or is added. -/
theorem bindsContent_of_accepts {pair : String × String}
    (content : body.contentProvider.or (keepInfo.bindings.content.map ContentSource.pair) =
      some pair)
    (accepts : Accepts orders keepInfo sources pair) : BindsContent body keepInfo sources := by
  rw [Accepts, mergeProviderRefs_eq, List.map_append, List.mem_append] at accepts
  refine ⟨pair, content, accepts.imp id fun added => ?_⟩
  rcases List.mem_map.mp added with ⟨p, member, rfl⟩
  rcases mem_of_unseen_flatMap member with ⟨source, isVisited, isAdded⟩
  refine ⟨source, (orders.providers.visits sources).subset isVisited, List.mem_map_of_mem ?_⟩
  rwa [addedProviders_eq]

theorem MergeEffects.performPlan_congr {plan plan' : MergePlan}
    (metadata : plan.metadata.saved l.toLower = plan'.metadata.saved l.toLower)
    (bindings : plan.bindings = plan'.bindings) (cover : plan.cover = plan'.cover) :
    (performPlan l body (.ok plan) : Effect NoAnswer MergeReply) =
      performPlan l body (.ok plan') := by
  simp only [performPlan, carryOut, finishMerge, saveMerged, Effects.saveMetadata, metadata,
    bindings, cover]

/-- Where the sources are in accord, all orders do the same with them. -/
theorem performPlan_alike (distinct : (sources.map Prod.fst).Nodup)
    (accord : BindsContent body keepInfo sources → Accord l.toLower keepInfo sources)
    (first second : MapOrders) :
    (MergeEffects.performPlan l body (planMergeIn first body keepInfo sources) :
        Effect NoAnswer MergeReply) =
      MergeEffects.performPlan l body (planMergeIn second body keepInfo sources) := by
  rw [planMergeIn_eq distinct, planMergeIn_eq distinct]
  cases content : body.contentProvider.or (keepInfo.bindings.content.map ContentSource.pair) with
  | none => rfl
  | some pair =>
      by_cases binds : BindsContent body keepInfo sources
      · have same := (@accord_iff _ body _ _ distinct).mp (accord binds) first second
        have accepts : Accepts first keepInfo sources pair ↔ Accepts second keepInfo sources pair := by
          rw [Accepts, Accepts, same.2]
        simp only [same.2, accepts]
        split
        · exact MergeEffects.performPlan_congr same.1 rfl rfl
        · rfl
      · have refuses : ∀ orders : MapOrders, ¬ Accepts orders keepInfo sources pair :=
          fun orders accepts => binds (bindsContent_of_accepts content accepts)
        simp only [refuses, if_false]

end Plans

namespace MergeEffects

variable {l : Layout} {body : MergeRequest}

/-- Step 2 after step 1. -/
def withSources (keepInfo : Manga) : Except String (List (String × Manga)) →
    Except MergeRefusal (Manga × List (String × Manga))
  | .error srcID => .error (.mangaNotFound srcID)
  | .ok sources => .ok (keepInfo, sources)

/-- What step 1 leaves to be read. -/
def withKept (l : Layout) (body : MergeRequest) (disk : Disk) :
    Option Manga → Except MergeRefusal (Manga × List (String × Manga))
  | none => .error (.mangaNotFound body.keepMangaID)
  | some keepInfo => withSources keepInfo (Api.loadSources l disk body.sourceMangaIDs)

theorem loadMerged_readsAs :
    ReadsAs (loadMerged l body : Effect NoAnswer _) (loadedFrom l · body)
      fun value => ∃ refusal, value = .error refusal := by
  simp only [loadMerged, loadedFrom]
  cases body.refusal with
  | some refusal => exact .pure _
  | none =>
      refine ((@Effects.getManga_readsAs _ NoAnswer _ l body.keepMangaID).bind
        (fun manga disk => withKept l body disk manga) ?_ ?_).congr ?_
      · intro value
        cases value with
        | none => exact .pure _
        | some keepInfo =>
            refine ((@loadSources_readsAs _ NoAnswer _ l body.sourceMangaIDs).bind
              (fun sources _ => withSources keepInfo sources) ?_ ?_).congr ?_
            · intro sources
              cases sources with
              | error srcID => exact .pure _
              | ok sources => exact .pure _
            · rintro _ ⟨missing, rfl⟩ disk
              exact ⟨_, rfl⟩
            · exact fun disk => rfl
      · rintro _ rfl disk
        exact ⟨_, rfl⟩
      · intro disk
        cases l.getManga disk body.keepMangaID with
        | none => rfl
        | some keepInfo =>
            change withSources keepInfo (Api.loadSources l disk body.sourceMangaIDs) = _
            cases Api.loadSources l disk body.sourceMangaIDs with
            | error srcID => rfl
            | ok sources => rfl

end MergeEffects

section Determined

variable {l : Layout} {disk : Disk} {body : MergeRequest}

theorem SameMerge.refl (l : Layout) (body : MergeRequest) (disk : Disk) :
    SameMerge l body disk disk :=
  ⟨rfl, rfl, fun _ _ => rfl⟩

/-- Accord makes the merge deterministic. -/
theorem deterministic_of_accord
    (accord : ∀ keepInfo sources, loadedFrom l disk body = .ok (keepInfo, sources) →
      BindsContent body keepInfo sources → Accord l.toLower keepInfo sources) :
    Deterministic l disk body := by
  rintro first second choices left right ⟨used, later, reply, files, rfl, ran, rfl⟩
    ⟨used', later', reply', files', same, ran', rfl⟩
  rcases Program.run_bind.mp ran with ⟨reading, rest, loaded, f₁, rfl, loads, performs⟩
  have alike : (MergeEffects.performPlan l body (loaded.bind fun concerns =>
        planMergeIn first body concerns.1 concerns.2) : Effect NoAnswer MergeReply) =
      MergeEffects.performPlan l body (loaded.bind fun concerns =>
        planMergeIn second body concerns.1 concerns.2) := by
    cases loaded with
    | error refusal => rfl
    | ok concerns =>
        rcases (MergeEffects.loadMerged_readsAs loads).2 with found | ⟨⟨refusal, impossible⟩, _⟩
        · have distinct := loadSources_distinct (loadedFrom_ok found.symm).2
          exact performPlan_alike distinct (accord _ _ found.symm) first second
        · contradiction
  rw [alike] at performs
  have again : (MergeEffects.mergeLibraryMangaIn l second body).run Files.respond (.ofTree disk)
      (reading ++ rest) = some (reply, files) :=
    Program.run_bind.mpr ⟨reading, rest, loaded, f₁, rfl, loads, performs⟩
  cases Program.run_unique again ran' same
  exact .refl l body _

/-! ## A run that saves

The moves and deletions are best-effort, so a run in which the system refuses all of them
still saves what the loops have united. -/

/-- Where everything is refused, nothing changes. -/
theorem tree_of_refusals {program : Effect NoAnswer α} {f f' : Files Document}
    {choices : List (FileChoice NoAnswer)} {result : α}
    (ran : program.run Files.respond f choices = some (result, f'))
    (refusals : ∀ choice ∈ choices, choice = .refuse 0) : f'.tree = f.tree := by
  induction program generalizing f choices with
  | done value =>
      rcases Program.run_done.mp ran with ⟨_, _, rfl⟩
      rfl
  | call c next induction =>
      rcases Program.run_call.mp ran with ⟨choice, rest, reply, middle, rfl, responded, others⟩
      rcases List.forall_mem_cons.mp refusals with ⟨rfl, later⟩
      rw [induction reply others later]
      cases c with
      | mkdirAll path =>
          cases responded
          rfl
      | ask question => exact question.elim
      | _ =>
          cases responded
          rfl

theorem exists_refusals (program : Effect NoAnswer α) (f : Files Document) :
    ∃ choices result f', program.run Files.respond f choices = some (result, f') ∧
      f'.tree = f.tree := by
  have responds : ∀ (state : Files Document) (c : FileCall Document Empty),
      ∃ choice : FileChoice NoAnswer, ∃ reply next,
        state.respond c choice = some (reply, next) ∧ choice = .refuse 0 := by
    intro state c
    cases c with
    | ask question => exact question.elim
    | _ => exact ⟨.refuse 0, _, _, rfl, rfl⟩
  rcases program.exists_run f (fun choice : FileChoice NoAnswer => choice = .refuse 0) responds with
    ⟨choices, result, f', ran, refusals⟩
  exact ⟨choices, result, f', ran, tree_of_refusals ran refusals⟩

theorem temporary_ne_name (name digits : String) : name ++ ".tmp." ++ digits ≠ name := by
  intro same
  exact temporary_ne [] name digits _ (List.prefix_refl _) (by rw [same])

/-- A granted save of one file, whatever its content. -/
theorem saveLocked_granted {id name digits : String} {dir : Path} {f : Files Document}
    (located : l.mangaDir id = .ok dir) (isDirectory : f.tree.find dir = some .directory)
    (noDirectory : f.tree.find (dir ++ [name]) ≠ some .directory)
    (allDigits : digits.toList.all Char.isDigit = true)
    (free : f.tree.find (dir ++ [name ++ ".tmp." ++ digits]) = none) (content : Document) :
    ∃ f', (Effects.saveLocked l id name content : Effect NoAnswer Bool).run Files.respond f
      [.grant "", .grant digits, .grant "", .grant ""] = some (true, f') := by
  have different := temporary_ne_name name digits
  rcases FileTree.mkdirAll_of_directory isDirectory with ⟨t₁, made, find₁⟩
  rw [← find₁] at isDirectory noDirectory free
  rcases FileTree.exists_writeFile isDirectory (by simp [free] :
    t₁.find (dir ++ [name ++ ".tmp." ++ digits]) ≠ some .directory) (.data []) with ⟨t₂, put₂⟩
  have find₂ := FileTree.find_put put₂
  have isFile₂ : t₂.find (dir ++ [name ++ ".tmp." ++ digits]) = some (.file (.data [])) := by
    rw [find₂, if_pos rfl]
  rcases FileTree.exists_writeFile (FileTree.parent isFile₂) (by simp [isFile₂] :
    t₂.find (dir ++ [name ++ ".tmp." ++ digits]) ≠ some .directory) content with ⟨t₃, put₃⟩
  have find₃ := FileTree.find_put put₃
  have isFile₃ : t₃.find (dir ++ [name ++ ".tmp." ++ digits]) = some (.file content) := by
    rw [find₃, if_pos rfl]
  have clear₃ : t₃.find (dir ++ [name]) ≠ some .directory := by
    rw [find₃, if_neg (by simpa using different.symm), find₂,
      if_neg (by simpa using different.symm)]
    exact noDirectory
  rcases FileTree.exists_rename isFile₃ different clear₃ with ⟨t₄, moved⟩
  let tmp : Path := dir ++ [name ++ ".tmp." ++ digits]
  let f₁ := f.touch t₁ ((f.tree.missingDirectories dir).map .makeDirectory)
  let f₂ := f₁.touch t₂ [.create tmp]
  let f₃ := f₂.touch t₃ [.change tmp]
  have creates : f₁.respond (.createTemp dir (name ++ ".tmp.") (.data []) : FileCall Document Empty)
      (.grant digits : FileChoice NoAnswer) = some (.ok (name ++ ".tmp." ++ digits), f₂) := by
    simp [Files.respond, Files.granted, f₁, f₂, tmp, Files.touch, allDigits, free, put₂]
  have writes : f₂.respond (.write tmp content : FileCall Document Empty)
      (.grant "" : FileChoice NoAnswer) = some (.ok (), f₃) := by
    have held : t₂.readFile tmp = some (.data []) := FileTree.readFile_eq_some.mpr isFile₂
    have put₃' : t₂.writeFile tmp.dropLast (tmp.getLastD "") content = some t₃ := by
      simpa [tmp] using put₃
    simp only [Files.respond, Files.granted, f₂, f₃, Files.touch, held, put₃']
  let f₄ := f₃.touch t₄ ((t₃.filesBelow tmp).map .remove ++
    (t₃.filesBelow tmp).map fun file => .create (dir ++ [name] ++ file.drop tmp.length))
  have renames : f₃.respond (.rename tmp (dir ++ [name]) : FileCall Document Empty)
      (.grant "" : FileChoice NoAnswer) = some (.ok (), f₄) := by
    simp only [Files.respond, Files.granted, f₃, f₄, Files.touch, tmp, moved]
  refine ⟨f₄, ?_⟩
  simp only [Effects.saveLocked, located]
  refine Program.run_call.mpr ⟨_, _, _, f₁, rfl, Files.respond_mkdirAll f made "", ?_⟩
  refine Program.run_call.mpr ⟨_, _, _, f₂, rfl, creates, ?_⟩
  refine Program.run_call.mpr ⟨_, _, _, f₃, rfl, writes, ?_⟩
  exact Program.run_call.mpr ⟨_, _, _, f₄, rfl, renames, rfl⟩

/-- Granted saves after step 7, whatever the plan. -/
theorem finishMerge_granted {dir : Path} {f : Files Document}
    (located : l.mangaDir body.keepMangaID = .ok dir)
    (isDirectory : f.tree.find dir = some .directory)
    (noMetadata : f.tree.find (dir ++ ["metadata.json"]) ≠ some .directory)
    (noBindings : f.tree.find (dir ++ ["bindings.json"]) ≠ some .directory) :
    ∃ choices : List (FileChoice NoAnswer), ∀ plan deleted, ∃ reply f',
      (MergeEffects.finishMerge l body plan deleted).run Files.respond f choices =
        some (reply, f') ∧
      f'.tree.find (dir ++ ["metadata.json"]) =
        some (.file (.metadata (plan.metadata.saved l.toLower))) ∧
      f'.tree.find (dir ++ ["bindings.json"]) =
        some (.file (.bindings (SavedBindings.save plan.bindings).bindings)) := by
  have apart : ∀ digits : String, "metadata.json" ≠ "bindings.json" ++ ".tmp." ++ digits := by
    intro digits same
    have heads := congrArg (fun name : String => name.toList.head?) same
    simp at heads
  have apart' : ∀ digits : String, "bindings.json" ≠ "metadata.json" ++ ".tmp." ++ digits := by
    intro digits same
    have heads := congrArg (fun name : String => name.toList.head?) same
    simp at heads
  have apartTemporary : ∀ digits digits' : String,
      "bindings.json" ++ ".tmp." ++ digits ≠ "metadata.json" ++ ".tmp." ++ digits' := by
    intro digits digits' same
    have heads := congrArg (fun name : String => name.toList.head?) same
    simp at heads
  rcases Files.exists_digits f.tree dir ("metadata.json" ++ ".tmp.") with ⟨digits₁, all₁, free₁⟩
  rcases Files.exists_digits f.tree dir ("bindings.json" ++ ".tmp.") with ⟨digits₂, all₂, free₂⟩
  let save (digits : String) : List (FileChoice NoAnswer) :=
    [.grant "", .grant digits, .grant "", .grant ""]
  refine ⟨save digits₁ ++ (save digits₂ ++ [.refuse 0]), fun plan deleted => ?_⟩
  rcases saveLocked_granted located isDirectory noMetadata all₁ free₁
    (.metadata (plan.metadata.saved l.toLower)) with ⟨f₁, ran₁⟩
  have saved₁ := saveLocked_saves located ran₁ rfl
  have metadata₁ := saved₁.find "metadata.json" fun digits => (temporary_ne_name _ digits).symm
  rw [if_pos ⟨rfl, rfl⟩] at metadata₁
  have bindings₁ := saved₁.find "bindings.json" apart'
  rw [if_neg (by simp)] at bindings₁
  have temporary₁ := saved₁.find ("bindings.json" ++ ".tmp." ++ digits₂) fun digits =>
    apartTemporary digits₂ digits
  rw [if_neg fun same => apart digits₂ same.2.symm, free₂] at temporary₁
  rcases saveLocked_granted located (FileTree.parent metadata₁) (by rwa [bindings₁]) all₂ temporary₁
    (.bindings (SavedBindings.save plan.bindings).bindings) with ⟨f₂, ran₂⟩
  have saved₂ := saveLocked_saves located ran₂ rfl
  have metadata₂ := saved₂.find "metadata.json" apart
  rw [if_neg (by simp), metadata₁] at metadata₂
  have bindings₂ := saved₂.find "bindings.json" fun digits => (temporary_ne_name _ digits).symm
  rw [if_pos ⟨rfl, rfl⟩] at bindings₂
  have merged : (MergeEffects.saveMerged l body plan : Effect NoAnswer Bool).run Files.respond f
      (save digits₁ ++ save digits₂) = some (true, f₂) :=
    Program.run_bind.mpr ⟨save digits₁, save digits₂, true, f₁, rfl, ran₁, ran₂⟩
  have reads : (Effects.getManga l body.keepMangaID : Effect NoAnswer (Option Manga)).run
      Files.respond f₂ [.refuse 0] = some (none, f₂) := by
    simp only [Effects.getManga, located]
    rfl
  refine ⟨⟨.ok none, deleted⟩, f₂, ?_, metadata₂, bindings₂⟩
  rw [← List.append_assoc]
  refine Program.run_bind.mpr ⟨_, _, true, f₂, rfl, merged, ?_⟩
  exact Program.run_bind.mpr ⟨[.refuse 0], [], none, f₂, rfl, reads, rfl⟩

theorem getManga_parts {id : String} {manga : Manga} (found : l.getManga disk id = some manga) :
    ∃ dir, l.mangaDir id = .ok dir ∧ disk.find dir = some .directory ∧
      l.getMetadata disk id = some manga.metadata ∧ l.getBindings disk id = some manga.bindings := by
  rcases located_of_getManga (Option.isSome_of_eq_some found) with ⟨dir, located, isDirectory⟩
  simp only [Layout.getManga, located] at found
  split at found
  · contradiction
  · rcases Option.bind_eq_some_iff.mp found with ⟨metadata, hasMetadata, found⟩
    rcases Option.bind_eq_some_iff.mp found with ⟨userState, _, found⟩
    rcases Option.bind_eq_some_iff.mp found with ⟨bindings, hasBindings, found⟩
    cases found
    exact ⟨dir, located, isDirectory, hasMetadata, hasBindings⟩

/-- What is read of a concern is no directory. -/
theorem concern_ne_directory {path : Path} {zero value : α} {decode : Document → Option α}
    (found : Layout.readConcern disk path zero decode = some value) :
    disk.find path ≠ some .directory := by
  intro isDirectory
  simp [Layout.readConcern, Layout.notExist, isDirectory, FileTree.readFile] at found

theorem readConcern_of_file {path : Path} {content : Document} (zero : α)
    (decode : Document → Option α) (found : disk.find path = some (.file content)) :
    Layout.readConcern disk path zero decode = decode content := by
  simp [Layout.readConcern, Layout.notExist, FileTree.readFile, found]

/-- Under some choices every order that is not refused saves its plan. -/
theorem exists_merges {keepInfo : Manga} {sources : List (String × Manga)}
    (ok : loadedFrom l disk body = .ok (keepInfo, sources)) :
    ∃ choices,
      (∀ orders refusal, planMergeIn orders body keepInfo sources = .error refusal →
        MergesIn l orders body disk choices disk) ∧
      ∀ orders plan, planMergeIn orders body keepInfo sources = .ok plan →
        ∃ disk', MergesIn l orders body disk choices disk' ∧
          l.getMetadata disk' body.keepMangaID = some (plan.metadata.saved l.toLower) ∧
          l.getBindings disk' body.keepMangaID = some (SavedBindings.save plan.bindings).bindings := by
  have keepFound := (loadedFrom_ok ok).1
  have distinct := loadSources_distinct (loadedFrom_ok ok).2
  rcases getManga_parts keepFound with ⟨dir, located, isDirectory, hasMetadata, hasBindings⟩
  rcases exists_unrefusedRun (MergeEffects.loadMerged l body : Effect NoAnswer _) (.ofTree disk) with
    ⟨reading, loaded, f₁, loads, clear⟩
  have isLoaded : loaded = .ok (keepInfo, sources) := by
    rcases (MergeEffects.loadMerged_readsAs loads).2 with same | ⟨_, refused⟩
    · exact same.trans ok
    · exact absurd refused clear
  subst isLoaded
  have tree₁ : f₁.tree = disk := (MergeEffects.loadMerged_readsAs loads).1
  let base : MergePlan :=
    ⟨keepInfo.metadata, keepInfo.bindings, (selectedSource body sources "cover_url").map Prod.fst⟩
  rcases exists_refusals (MergeEffects.carryOut l body base) f₁ with ⟨moving, deleted, f₂, moves, tree₂⟩
  rw [tree₁] at tree₂
  simp only [Layout.getMetadata, Layout.getBindings, located] at hasMetadata hasBindings
  rw [← tree₂] at isDirectory hasMetadata hasBindings
  rcases finishMerge_granted located isDirectory (concern_ne_directory hasMetadata)
    (concern_ne_directory hasBindings) with ⟨saving, finishes⟩
  refine ⟨reading ++ (moving ++ saving), fun orders refusal refuses => ?_, fun orders plan plans => ?_⟩
  · have stops : (MergeEffects.performPlan l body (planMergeIn orders body keepInfo sources) :
        Effect NoAnswer MergeReply).run Files.respond f₁ [] =
          some (⟨.error (.refused refusal), []⟩, f₁) := by
      rw [refuses]
      rfl
    refine ⟨reading, moving ++ saving, ⟨.error (.refused refusal), []⟩, f₁, rfl, ?_, tree₁⟩
    exact Program.run_bind.mpr ⟨reading, [], _, f₁, (List.append_nil reading).symm, loads, stops⟩
  · have sameCover : plan.cover = base.cover := by
      rw [planMergeIn_eq distinct] at plans
      split at plans
      · contradiction
      · split at plans
        · cases plans
          rfl
        · contradiction
    rcases finishes plan deleted with ⟨reply, f₃, saves, metadata, bindings⟩
    refine ⟨f₃.tree, ⟨reading ++ (moving ++ saving), [], reply, f₃, (List.append_nil _).symm, ?_, rfl⟩,
      ?_, ?_⟩
    · have carries : (MergeEffects.carryOut l body plan : Effect NoAnswer (List Path)).run
          Files.respond f₁ moving = some (deleted, f₂) := by
        rw [← moves]
        simp only [MergeEffects.carryOut, sameCover]
      have performs : (MergeEffects.performPlan l body (planMergeIn orders body keepInfo sources) :
          Effect NoAnswer MergeReply).run Files.respond f₁ (moving ++ saving) = some (reply, f₃) := by
        rw [plans]
        exact Program.run_bind.mpr ⟨moving, saving, deleted, f₂, rfl, carries, saves⟩
      exact Program.run_bind.mpr ⟨reading, moving ++ saving, _, f₁, rfl, loads, performs⟩
    · simp only [Layout.getMetadata, located]
      rw [readConcern_of_file _ _ metadata]
    · simp only [Layout.getBindings, located]
      rw [readConcern_of_file _ _ bindings]

/-- A merge that is deterministic has its sources in accord. -/
theorem accord_of_deterministic (deterministic : Deterministic l disk body) {keepInfo : Manga}
    {sources : List (String × Manga)} (ok : loadedFrom l disk body = .ok (keepInfo, sources))
    (binds : BindsContent body keepInfo sources) : Accord l.toLower keepInfo sources := by
  have distinct := loadSources_distinct (loadedFrom_ok ok).2
  rcases getManga_parts (loadedFrom_ok ok).1 with ⟨dir, located, _, _, hasBindings⟩
  rcases exists_merges ok with ⟨choices, refuses, saves⟩
  rcases binds with ⟨pair, content, bound⟩
  have keptAccepts : pair ∈ (firstSeen [] keepInfo.bindings.providers).map ProviderRef.pair →
      ∀ orders : MapOrders, Accepts orders keepInfo sources pair := by
    intro kept orders
    rw [Accepts, mergeProviderRefs_eq, List.map_append]
    exact List.mem_append_left _ kept
  have outcome : ∀ orders : MapOrders, Accepts orders keepInfo sources pair →
      ∃ left, MergesIn l orders body disk choices left ∧
        l.getMetadata left body.keepMangaID = some ((mergedMetadata body keepInfo
          (orders.metadata.visit sources)).saved l.toLower) ∧
        (l.getBindings left body.keepMangaID).map MangaBindings.providers =
          some (mergeProviderRefs keepInfo.bindings.providers (orders.providers.visit sources)) := by
    intro orders accepts
    have plans := @planMergeIn_eq body keepInfo sources orders distinct
    simp only [content, accepts, if_true] at plans
    rcases saves orders _ plans with ⟨left, merges, metadata, bindings⟩
    refine ⟨left, merges, metadata, ?_⟩
    rw [bindings, Option.map_some]
    exact congrArg some (firstSeen_mergeProviderRefs _ _)
  -- some order puts the binding of the content provider first
  have exists_accepts : ∃ orders : MapOrders, Accepts orders keepInfo sources pair := by
    rcases bound with kept | ⟨source, isSource, added⟩
    · exact ⟨⟨.listed, .listed⟩, keptAccepts kept _⟩
    · rcases List.append_of_mem isSource with ⟨front, back, parts⟩
      have isOrder : (source :: (front ++ back)).Perm sources := parts ▸ List.perm_middle.symm
      refine ⟨⟨.listed, .only sources _ isOrder⟩, ?_⟩
      have visited : (RangeOrder.only sources _ isOrder).visit sources =
          source :: (front ++ back) := if_pos rfl
      rw [Accepts, visited, mergeProviderRefs_eq, List.flatMap_cons, unseen_append,
        ← addedProviders_eq]
      simp only [List.map_append, List.mem_append]
      exact .inr (.inl added)
  rcases exists_accepts with ⟨chosen, chosenAccepts⟩
  have accepts : ∀ orders : MapOrders, Accepts orders keepInfo sources pair := by
    intro orders
    by_contra other
    have plans := @planMergeIn_eq body keepInfo sources orders distinct
    simp only [content, other, if_false] at plans
    rcases outcome chosen chosenAccepts with ⟨left, merges, _, providers⟩
    have same := (deterministic orders chosen choices disk left (refuses orders _ plans)
      merges).providers
    rw [providers, hasBindings, Option.map_some, Option.some.injEq] at same
    apply other
    apply keptAccepts
    rw [same, firstSeen_mergeProviderRefs]
    exact chosenAccepts
  refine (@accord_iff _ body _ _ distinct).mpr fun first second => ?_
  rcases outcome first (accepts first) with ⟨left, merges₁, metadata₁, providers₁⟩
  rcases outcome second (accepts second) with ⟨right, merges₂, metadata₂, providers₂⟩
  have same := deterministic first second choices left right merges₁ merges₂
  constructor
  · have metadata := same.metadata
    rw [metadata₁, metadata₂] at metadata
    exact Option.some.inj metadata
  · have providers := same.providers
    rw [providers₁, providers₂] at providers
    exact Option.some.inj providers

end Determined

/-- The merge is deterministic exactly if, where the kept manga binds the content provider or a
source adds it, of what any two sources add to a list one begins with the other. -/
theorem merge_deterministic_iff (l : Layout) (disk : Disk) (body : MergeRequest) :
    Deterministic l disk body ↔ ∀ keepInfo sources,
      loadedFrom l disk body = .ok (keepInfo, sources) → BindsContent body keepInfo sources →
        Accord l.toLower keepInfo sources :=
  ⟨fun deterministic _ _ ok binds => accord_of_deterministic deterministic ok binds,
    deterministic_of_accord⟩

/-- A manga with an alias and a provider binding. -/
def aliased (id name : String) : List (Path × Node Document) :=
  [(["library", id], .directory),
   (["library", id, "metadata.json"],
    .file (.metadata { MangaMetadata.zero with title := name, aliases := some [name] })),
   (["library", id, "bindings.json"], .file (.bindings abcBindings))]

def threeManga : Disk := FileTree.ofEntries
  ((["library"], .directory) :: aliased "abc" "Abc" ++ aliased "def" "Def" ++ aliased "ghi" "Ghi")
  (by decide +kernel)

/-- The aliases of the kept manga after a run in which nothing is refused. -/
def aliasesIn (orders : MapOrders) : Option (Option (Option (List String))) :=
  ((MergeEffects.mergeLibraryMangaIn plainLayout orders ⟨"abc", ["def", "ghi"], none, []⟩ :
    Effect NoAnswer MergeReply).run Files.respond (.ofTree threeManga)
      (List.replicate 30 (.grant ""))).map fun outcome =>
    (plainLayout.getMetadata outcome.2.tree "abc").map MangaMetadata.aliases

/-- Two sources with an alias each, visited in both orders. -/
theorem merge_order_shows : ¬ ∀ l disk body, Deterministic l disk body := by
  intro always
  have first : aliasesIn ⟨.listed, .listed⟩ = some (some (some ["Abc", "Def", "Ghi"])) := by
    decide +kernel
  have second : aliasesIn ⟨.reversed, .listed⟩ = some (some (some ["Abc", "Ghi", "Def"])) := by
    decide +kernel
  rcases Option.map_eq_some_iff.mp first with ⟨⟨reply, left⟩, ran, aliases⟩
  rcases Option.map_eq_some_iff.mp second with ⟨⟨reply', right⟩, ran', aliases'⟩
  have same := (always plainLayout threeManga ⟨"abc", ["def", "ghi"], none, []⟩ ⟨.listed, .listed⟩
    ⟨.reversed, .listed⟩ (List.replicate 30 (.grant "")) left.tree right.tree
    ⟨_, [], reply, left, (List.append_nil _).symm, ran, rfl⟩
    ⟨_, [], reply', right, (List.append_nil _).symm, ran', rfl⟩).metadata
  rw [same, aliases'] at aliases
  contradiction

end Kiyomi.Api
