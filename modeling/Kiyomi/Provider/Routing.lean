import Kiyomi.Foundation.Run
import Kiyomi.Provider.Registry
import Mathlib.Data.List.Nodup
import Mathlib.Data.Prod.Lex

namespace Kiyomi.Provider

open Go

/-! # Routing

The four maps are a cache of one function of the candidates and the preferences. -/

/-- The maps from handles to providers. -/
inductive Table
  | provs
  | metadata
  | content
  | tracking

/-- A provider has an entry in the table of each interface that it implements. -/
def Provider.isIn (p : Provider) : Table → Bool
  | .provs => true
  | .metadata => p.isMetadata
  | .content => p.isContent
  | .tracking => p.isTracking

/-- The base id of a handle. -/
def baseOf (handle : String) : String := String.ofList (cut '@' handle.toList).1

/-- `clearRouting` for `baseID` deletes this handle. -/
def Owns (baseID handle : String) : Prop :=
  handle = baseID ∨ hasPrefix handle (baseID ++ "@") = true

instance (baseID handle : String) : Decidable (Owns baseID handle) :=
  inferInstanceAs (Decidable (_ ∨ _))

/-- What `recomputeWinner` indexes, in this order. -/
def entries (pref baseID : String) (list : List Candidate) : List (String × Provider) :=
  match elect pref list with
  | none => []
  | some winner => (baseID, winner.provider) :: list.filterMap fun c =>
      (c.handle baseID).map fun handle => (handle, c.provider)

/-- The provider under a handle after `recomputeWinner`; a later entry overwrites. -/
def routeIn (pref baseID : String) (list : List Candidate) (handle : String) : Option Provider :=
  (entries pref baseID list).reverse.lookup handle

/-- The candidate that the entry of a handle comes from. -/
theorem owns_of_handle {c : Candidate} {baseID handle : String}
    (isHandle : c.handle baseID = some handle) : Owns baseID handle := by
  have starts (rest : String) : Owns baseID (baseID ++ "@" ++ rest) := by
    right
    rw [hasPrefix, List.isPrefixOf_iff_prefix, show (baseID ++ "@" ++ rest).toList = _ from String.toList_append]
    exact List.prefix_append _ _
  unfold Candidate.handle at isHandle
  split at isHandle
  · cases isHandle
    rw [show "@builtin" = "@" ++ "builtin" from rfl, ← String.append_assoc]
    exact starts _
  · split at isHandle
    · cases isHandle
      exact starts _
    · contradiction

/-! ## The election -/

/-- The order of versions: by major, then minor, then patch number. -/
def rank (version : String) : Int ×ₗ Int ×ₗ Int :=
  toLex ((clean version).1, toLex ((clean version).2.1, (clean version).2.2))

theorem compareVersionStrings_pos_iff {v1 v2 : String} :
    compareVersionStrings v1 v2 > 0 ↔ rank v2 < rank v1 := by
  unfold compareVersionStrings rank
  rw [Prod.Lex.toLex_lt_toLex, Prod.Lex.toLex_lt_toLex]
  rcases clean v1 with ⟨maj1, min1, pat1⟩
  rcases clean v2 with ⟨maj2, min2, pat2⟩
  simp only
  split_ifs <;> simp <;> omega

theorem highestVersion_spec {list : List Candidate} {winner : Candidate}
    (highest : highestVersion list = some winner) :
    winner ∈ list ∧ ∀ c ∈ list, rank c.version ≤ rank winner.version := by
  cases list with
  | nil => contradiction
  | cons first rest =>
      rw [highestVersion, Option.some_inj] at highest
      induction rest generalizing first with
      | nil => simp [← highest]
      | cons c rest induction =>
          rw [List.foldl_cons] at highest
          rcases induction _ highest with ⟨member, exceeds⟩
          split at member
          · rename_i higher
            rw [if_pos higher] at exceeds
            refine ⟨List.mem_cons_of_mem _ member, fun d listed => ?_⟩
            rcases List.mem_cons.mp listed with rfl | listed
            · exact (compareVersionStrings_pos_iff.mp higher).le.trans
                (exceeds c List.mem_cons_self)
            · exact exceeds d listed
          · rename_i lower
            rw [if_neg lower] at exceeds
            have below := not_lt.mp (lower ∘ compareVersionStrings_pos_iff.mpr)
            refine ⟨?_, fun d listed => ?_⟩
            · rcases List.mem_cons.mp member with rfl | member
              · exact List.mem_cons_self
              · exact List.mem_cons_of_mem _ (List.mem_cons_of_mem _ member)
            · rcases List.mem_cons.mp listed with rfl | listed
              · exact exceeds d List.mem_cons_self
              · rcases List.mem_cons.mp listed with rfl | listed
                · exact below.trans (exceeds first List.mem_cons_self)
                · exact exceeds d (List.mem_cons_of_mem _ listed)

theorem preferred_eq_some {pref : String} {list : List Candidate} {c : Candidate}
    (found : preferred pref list = some c) :
    pref ≠ "" ∧ c ∈ list ∧ c.isNamed pref = true := by
  unfold preferred at found
  split at found
  · rename_i named
    exact ⟨named, List.mem_of_find?_eq_some found, List.find?_some found⟩
  · contradiction

theorem mem_elect {pref : String} {list : List Candidate} {winner : Candidate}
    (elected : elect pref list = some winner) : winner ∈ list := by
  unfold elect at elected
  simp only at elected
  split at elected
  · exact List.mem_of_find?_eq_some elected
  split at elected
  · exact (preferred_eq_some elected).2.1
  split at elected
  · exact List.mem_of_find?_eq_some elected
  · exact (highestVersion_spec elected).1

theorem entries_nil (pref baseID : String) : entries pref baseID [] = [] := by
  cases elected : elect pref [] with
  | none => rw [entries, elected]
  | some winner => exact absurd (mem_elect elected) List.not_mem_nil

theorem owns_of_mem_entries {pref baseID handle : String} {list : List Candidate} {p : Provider}
    (member : (handle, p) ∈ entries pref baseID list) :
    Owns baseID handle ∧ ∃ c ∈ list, c.provider = p := by
  unfold entries at member
  split at member
  · contradiction
  rename_i winner elected
  rcases List.mem_cons.mp member with isWinner | isHandle
  · cases isWinner
    exact ⟨.inl rfl, winner, mem_elect elected, rfl⟩
  · rcases List.mem_filterMap.mp isHandle with ⟨c, listed, entry⟩
    rcases Option.map_eq_some_iff.mp entry with ⟨_, found, same⟩
    cases same
    exact ⟨owns_of_handle found, c, listed, rfl⟩

theorem mem_entries_of_routeIn {pref baseID handle : String} {list : List Candidate} {p : Provider}
    (found : routeIn pref baseID list handle = some p) : (handle, p) ∈ entries pref baseID list := by
  rcases List.lookup_eq_some_iff.mp found with ⟨before, after, parts, _⟩
  rw [← List.mem_reverse, parts]
  exact List.mem_append_right _ List.mem_cons_self

namespace Registry

variable {r r' : Registry} {baseID pref : String} {list : List Candidate}

def table (r : Registry) : Table → Map String Provider
  | .provs => r.provs
  | .metadata => r.metadata
  | .content => r.content
  | .tracking => r.tracking

/-- The route that the candidates and the preferences prescribe. -/
def route (r : Registry) (handle : String) : Option Provider :=
  routeIn (r.preference (baseOf handle)) (baseOf handle) (r.candidatesOf (baseOf handle)) handle

theorem lookup_indexProvider (r : Registry) (handle key : String) (p : Provider) (t : Table) :
    ((r.indexProvider handle p).table t).lookup key =
      if key = handle then (some p).filter (·.isIn t) else (r.table t).lookup key := by
  have put (m : Map String Provider) (has : Bool) :
      (if has then m.insert handle p else m.erase handle).lookup key =
        if key = handle then (if has then some p else none) else m.lookup key := by
    cases has with
    | false => exact Map.lookup_erase m key handle
    | true => exact Map.lookup_insert m key handle p
  cases t with
  | provs => exact Map.lookup_insert r.provs key handle p
  | metadata => exact put r.metadata p.isMetadata
  | content => exact put r.content p.isContent
  | tracking => exact put r.tracking p.isTracking

theorem table_deleteHandle (r : Registry) (handle : String) (t : Table) :
    (r.deleteHandle handle).table t = (r.table t).erase handle := by
  cases t <;> rfl

theorem table_deleteHandles (r : Registry) (handles : List String) (t : Table) :
    (handles.foldl deleteHandle r).table t = Map.deleteAll (r.table t) handles := by
  induction handles generalizing r with
  | nil => rfl
  | cons handle handles induction =>
      rw [List.foldl_cons, induction, table_deleteHandle]
      rfl

/-- Whatever one of the tables routes, `provs` routes as well. -/
def Contained (r : Registry) : Prop :=
  ∀ t key, (r.table t).lookup key ≠ none → r.provs.lookup key ≠ none

theorem lookup_clearRouting (contained : r.Contained) (baseID key : String) (t : Table) :
    ((r.clearRouting baseID).table t).lookup key =
      if Owns baseID key then none else (r.table t).lookup key := by
  rw [clearRouting, table_deleteHandles, Map.lookup_deleteAll, table_deleteHandle,
    Map.lookup_erase]
  by_cases same : key = baseID
  · simp [Owns, same]
  by_cases longer : hasPrefix key (baseID ++ "@") = true
  · rw [if_pos (show Owns baseID key from .inr longer), if_neg same]
    split
    · rfl
    · rename_i absent
      by_contra present
      refine absent (List.mem_filter.mpr ⟨?_, longer⟩)
      have isKey : ((r.deleteHandle baseID).provs).lookup key ≠ none := by
        change (r.provs.erase baseID).lookup key ≠ none
        rw [Map.lookup_erase, if_neg same]
        exact contained t key present
      exact AList.mem_keys.mp (by_contra fun out => isKey (AList.lookup_eq_none.mpr out))
  · rw [if_neg (show ¬ Owns baseID key from not_or.mpr ⟨same, longer⟩), if_neg same, if_neg]
    exact fun member => longer (List.mem_filter.mp member).2

theorem indexEntries (r : Registry) (indexed : List (String × Provider)) (key : String) (t : Table) :
    ((indexed.foldl (fun r entry => r.indexProvider entry.1 entry.2) r).table t).lookup key =
      match indexed.reverse.lookup key with
      | none => (r.table t).lookup key
      | some p => (some p).filter (·.isIn t) := by
  induction indexed using List.reverseRecOn with
  | nil => rfl
  | append_singleton indexed entry induction =>
      rw [List.foldl_append, List.foldl_cons, List.foldl_nil, lookup_indexProvider,
        List.reverse_append, List.reverse_singleton, List.singleton_append, List.lookup_cons]
      by_cases same : key = entry.1
      · simp [same]
      · simp only [if_neg same, beq_eq_false_iff_ne.mpr same, induction]

/-! ## What an operation can do -/

/-- The candidates of one base id and its preference are replaced and its routes are
computed anew. -/
structure Recomputed (r r' : Registry) (baseID : String) (list : List Candidate)
    (pref : String) : Prop where
  candidates : ∀ other, r'.candidatesOf other = if other = baseID then list else r.candidatesOf other
  preference : ∀ other, r'.preference other = if other = baseID then pref else r.preference other
  keys : ∀ other ∈ r'.candidates, other = baseID ∨ other ∈ r.candidates
  routes : ∀ t key, (r'.table t).lookup key =
    if Owns baseID key then (routeIn pref baseID list key).filter (·.isIn t)
    else (r.table t).lookup key

theorem candidates_deleteHandles (handles : List String) (r : Registry) :
    (handles.foldl deleteHandle r).candidates = r.candidates ∧
      (handles.foldl deleteHandle r).userPrefs = r.userPrefs := by
  induction handles generalizing r with
  | nil => exact ⟨rfl, rfl⟩
  | cons handle handles induction => exact induction (r.deleteHandle handle)

theorem candidates_indexEntries (indexed : List (String × Provider)) (r : Registry) :
    (indexed.foldl (fun r entry => r.indexProvider entry.1 entry.2) r).candidates = r.candidates ∧
      (indexed.foldl (fun r entry => r.indexProvider entry.1 entry.2) r).userPrefs =
        r.userPrefs := by
  induction indexed generalizing r with
  | nil => exact ⟨rfl, rfl⟩
  | cons entry indexed induction => exact induction (r.indexProvider entry.1 entry.2)

theorem recomputeWinner_eq (r : Registry) (baseID : String) :
    r.recomputeWinner baseID = (entries (r.preference baseID) baseID (r.candidatesOf baseID)).foldl
      (fun r entry => r.indexProvider entry.1 entry.2) (r.clearRouting baseID) := by
  have samePrefs : (r.clearRouting baseID).userPrefs = r.userPrefs :=
    (candidates_deleteHandles _ (r.deleteHandle baseID)).2
  have samePreference : (r.clearRouting baseID).preference baseID = r.preference baseID := by
    rw [preference, samePrefs, preference]
  rw [recomputeWinner, entries]
  simp only [samePreference]
  cases elect (r.preference baseID) (r.candidatesOf baseID) with
  | none => rfl
  | some winner =>
      simp only [List.foldl_cons]
      generalize (r.clearRouting baseID).indexProvider baseID winner.provider = start
      induction r.candidatesOf baseID generalizing start with
      | nil => rfl
      | cons c rest induction =>
          rw [List.foldl_cons, List.filterMap_cons, induction]
          cases c.handle baseID with
          | none => rfl
          | some handle => rfl

theorem recomputed_recomputeWinner {start : Registry} (contained : r.Contained)
    (tables : ∀ t, start.table t = r.table t)
    (candidates : ∀ other, start.candidatesOf other =
      if other = baseID then list else r.candidatesOf other)
    (preference : ∀ other, start.preference other =
      if other = baseID then pref else r.preference other)
    (keys : ∀ other ∈ start.candidates, other = baseID ∨ other ∈ r.candidates) :
    Recomputed r (start.recomputeWinner baseID) baseID list pref := by
  have sameCandidates : (start.recomputeWinner baseID).candidates = start.candidates := by
    rw [recomputeWinner_eq, (candidates_indexEntries _ _).1]
    exact (candidates_deleteHandles _ (start.deleteHandle baseID)).1
  have samePrefs : (start.recomputeWinner baseID).userPrefs = start.userPrefs := by
    rw [recomputeWinner_eq, (candidates_indexEntries _ _).2]
    exact (candidates_deleteHandles _ (start.deleteHandle baseID)).2
  refine ⟨fun other => ?_, fun other => ?_, sameCandidates ▸ keys, fun t key => ?_⟩
  · rw [candidatesOf, sameCandidates]
    exact candidates other
  · rw [Registry.preference, samePrefs]
    exact preference other
  have startContained : start.Contained := by
    intro t key
    have sameProvs : start.provs = r.provs := tables .provs
    rw [tables, sameProvs]
    exact contained t key
  rw [recomputeWinner_eq, indexEntries, lookup_clearRouting startContained, tables, candidates,
    preference, if_pos rfl, if_pos rfl, routeIn]
  cases found : (entries pref baseID list).reverse.lookup key with
  | none =>
      by_cases owns : Owns baseID key
      · simp only [if_pos owns, Option.filter_none]
      · simp only [if_neg owns]
  | some p =>
      -- Every handle of a base id is one that the clearing deletes.
      simp only [if_pos (owns_of_mem_entries (mem_entries_of_routeIn found)).1]

theorem candidatesOf_withCandidates (r : Registry) (baseID : String) (list : List Candidate)
    (other : String) : (r.withCandidates baseID list).candidatesOf other =
      if other = baseID then list else r.candidatesOf other := by
  rw [candidatesOf, withCandidates, Map.lookup_insert]
  split <;> rfl

theorem preference_eq (r : Registry) (baseID other : String) :
    r.preference other = if other = baseID then r.preference baseID else r.preference other := by
  split
  · rename_i same
    rw [same]
  · rfl

theorem recomputed_withCandidates (contained : r.Contained) (baseID : String)
    (list : List Candidate) : Recomputed r ((r.withCandidates baseID list).recomputeWinner baseID)
      baseID list (r.preference baseID) :=
  recomputed_recomputeWinner contained (fun t => by cases t <;> rfl)
    (candidatesOf_withCandidates r baseID list) (preference_eq r baseID)
    fun _ member => (AList.mem_insert _).mp member

/-- The list that `Register` stores. -/
def registered (p : Provider) (list : List Candidate) : List Candidate :=
  (updateFirst (fun c => c.slot == (Candidate.ofProvider p).slot)
    (fun _ => Candidate.ofProvider p) list).getD (list ++ [Candidate.ofProvider p])

theorem recomputed_register (contained : r.Contained) (p : Provider) :
    Recomputed r (r.register p) p.id (registered p (r.candidatesOf p.id)) (r.preference p.id) :=
  recomputed_withCandidates contained p.id _

theorem recomputed_setUserPreference (contained : r.Contained)
    (providerID preferredSource : String) :
    Recomputed r (r.setUserPreference providerID preferredSource) providerID
      (r.candidatesOf providerID) preferredSource := by
  refine recomputed_recomputeWinner contained (fun t => by cases t <;> rfl) (fun other => ?_)
    (fun other => ?_) fun _ => .inr
  · split
    · rename_i same
      rw [same]
      rfl
    · rfl
  · rw [preference, Map.lookup_insert]
    split <;> rfl

theorem recomputed_keepCandidates (contained : r.Contained) (baseID : String)
    (newList : List Candidate) : Recomputed r (r.keepCandidates baseID newList) baseID newList
      (r.preference baseID) := by
  unfold keepCandidates
  split
  · rename_i empty
    have erased : ∀ other, (r.candidates.erase baseID).lookup other =
        if other = baseID then none else r.candidates.lookup other :=
      fun other => Map.lookup_erase _ other baseID
    have recompute : ({ r with candidates := r.candidates.erase baseID } : Registry).clearRouting
        baseID = ({ r with candidates := r.candidates.erase baseID } : Registry).recomputeWinner
          baseID := by
      have nothing : ({ r with candidates := r.candidates.erase baseID } : Registry).candidatesOf
          baseID = [] := by
        rw [candidatesOf, erased, if_pos rfl]
        rfl
      rw [recomputeWinner_eq, nothing, entries_nil]
      rfl
    rw [recompute]
    refine recomputed_recomputeWinner contained (fun t => by cases t <;> rfl) (fun other => ?_)
      (preference_eq r baseID) fun _ member => .inr (AList.mem_erase.mp member).2
    rw [candidatesOf, erased, empty]
    split <;> rfl
  · exact recomputed_withCandidates contained baseID newList

theorem swapProvider_cases (contained : r.Contained) (baseID : String)
    (oldProv newProv : Provider) :
    (r.swapProvider baseID oldProv newProv).2 = r ∨
    ∃ list, updateFirst (fun c => c.provider = oldProv) (swapped newProv) (r.candidatesOf baseID) =
        some list ∧
      Recomputed r (r.swapProvider baseID oldProv newProv).2 baseID list (r.preference baseID) := by
  unfold swapProvider
  cases updateFirst (fun c => c.provider = oldProv) (swapped newProv) (r.candidatesOf baseID) with
  | none => exact .inl rfl
  | some list => exact .inr ⟨list, rfl, recomputed_withCandidates contained baseID list⟩

theorem Recomputed.contained (recomputed : Recomputed r r' baseID list pref)
    (contained : r.Contained) : r'.Contained := by
  intro t key
  have provs := recomputed.routes .provs key
  rw [recomputed.routes, show r'.provs = r'.table .provs from rfl, provs]
  split
  · intro present missing
    apply present
    cases found : routeIn pref baseID list key with
    | none => rfl
    | some p => simp [found, Provider.isIn] at missing
  · exact contained t key

/-! ## Every route leads to a present candidate -/

/-- What a table routes is the provider of a present candidate of a base id that owns the
handle. -/
structure Current (r : Registry) : Prop where
  contained : r.Contained
  present : ∀ t key p, (r.table t).lookup key = some p →
    ∃ baseID, Owns baseID key ∧ ∃ c ∈ r.candidatesOf baseID, c.provider = p

theorem current_new : Current new := by
  refine ⟨fun t key => ?_, fun t key p found => ?_⟩
  · cases t <;> exact fun present => absurd rfl present
  · cases t <;> cases found

theorem Recomputed.current (recomputed : Recomputed r r' baseID list pref) (current : r.Current) :
    r'.Current := by
  refine ⟨recomputed.contained current.contained, fun t key p found => ?_⟩
  rw [recomputed.routes] at found
  split at found
  · rename_i owns
    rcases Option.filter_eq_some_iff.mp found with ⟨routed, _⟩
    rcases (owns_of_mem_entries (mem_entries_of_routeIn routed)).2 with ⟨c, listed, same⟩
    exact ⟨baseID, owns, c, by rwa [recomputed.candidates, if_pos rfl], same⟩
  · rename_i foreign
    rcases current.present t key p found with ⟨other, owns, c, listed, same⟩
    refine ⟨other, owns, c, ?_, same⟩
    have different : other ≠ baseID := fun equal => foreign (equal ▸ owns)
    rwa [recomputed.candidates, if_neg different]

/-- What holds after every recomputation holds after every operation. -/
theorem apply_keeps {Keeps : Registry → Prop} (contained : ∀ {r}, Keeps r → r.Contained)
    (recomputed : ∀ {r r' baseID list pref}, Keeps r → Recomputed r r' baseID list pref → Keeps r')
    (keeps : Keeps r) (operation : Operation) : Keeps (r.apply operation) := by
  cases operation with
  | register p =>
      cases p with
      | none => exact keeps
      | some p => exact recomputed keeps (recomputed_register (contained keeps) p)
  | swapProvider baseID oldProv newProv =>
      rcases swapProvider_cases (contained keeps) baseID oldProv newProv with
        same | ⟨list, _, swapped⟩
      · change Keeps (r.swapProvider baseID oldProv newProv).2
        rwa [same]
      · exact recomputed keeps swapped
  | unregister id =>
      change Keeps (r.unregister id)
      unfold unregister
      split
      · exact recomputed keeps (recomputed_keepCandidates (contained keeps) _ _)
      · exact recomputed keeps (recomputed_keepCandidates (contained keeps) _ _)
  | unregisterPlugin pluginID =>
      change Keeps (r.unregisterPlugin pluginID)
      unfold unregisterPlugin
      induction r.candidates.keys generalizing r with
      | nil => exact keeps
      | cons baseID bases induction =>
          exact induction (recomputed keeps (recomputed_keepCandidates (contained keeps) _ _))
  | setUserPreference providerID preferredSource =>
      exact recomputed keeps (recomputed_setUserPreference (contained keeps) _ _)

theorem current_apply (current : r.Current) (operation : Operation) :
    (r.apply operation).Current :=
  apply_keeps Current.contained (fun current recomputed => recomputed.current current) current
    operation

theorem current_foldl (current : r.Current) (operations : List Operation) :
    (operations.foldl apply r).Current := by
  induction operations generalizing r with
  | nil => exact current
  | cons operation operations induction => exact induction (current_apply current operation)

theorem Current.candidate_of_finds (current : r.Current) {p : Provider} (finds : r.Finds p) :
    ∃ baseID, ∃ c ∈ r.candidatesOf baseID, c.provider = p := by
  have listed (t : Table) {p : Provider} (member : p ∈ (r.table t).entries.map (·.2)) :
      ∃ baseID, ∃ c ∈ r.candidatesOf baseID, c.provider = p := by
    rcases List.mem_map.mp member with ⟨⟨key, _⟩, entry, rfl⟩
    rcases current.present t key _ (AList.mem_lookup_iff.mpr entry) with ⟨baseID, _, found⟩
    exact ⟨baseID, found⟩
  have routed (t : Table) {key : String} {p : Provider} (found : (r.table t).lookup key = some p) :
      p ∈ (r.table t).entries.map (·.2) :=
    List.mem_map.mpr ⟨⟨key, p⟩, AList.mem_lookup_iff.mp found, rfl⟩
  have primaries (t : Table) {p : Provider} (member : p ∈ primary (r.table t)) :
      p ∈ (r.table t).entries.map (·.2) := by
    rcases List.mem_map.mp member with ⟨entry, kept, same⟩
    exact List.mem_map.mpr ⟨entry, (List.mem_filter.mp kept).1, same⟩
  rcases finds with ⟨id, found | found | found | found⟩ | found | found | found | found
  · exact listed .provs (routed .provs found)
  · exact listed .metadata (routed .metadata found)
  · exact listed .content (routed .content found)
  · exact listed .tracking (routed .tracking found)
  · exact listed .content (primaries .content found)
  · exact listed .metadata (primaries .metadata found)
  · rw [listInfo, List.map_map] at found
    rcases List.mem_map.mp found with ⟨q, isPrimary, rfl⟩
    exact listed .provs (primaries .provs isPrimary)
  · rw [listAllInfo, List.map_map] at found
    exact listed .provs found

end Registry

/-! ## Candidate lists -/

def IsID (id : String) : Prop := id ≠ "" ∧ '@' ∉ id.toList

instance (id : String) : Decidable (IsID id) := inferInstanceAs (Decidable (_ ∧ _))

/-- An entry under the base id of its provider. -/
structure Listed (baseID : String) (c : Candidate) : Prop where
  base : IsID baseID
  id : c.provider.id = baseID
  pluginID : c.pluginID = c.provider.registeredPluginID
  plugin : c.isBuiltIn = false → IsID c.pluginID ∧ c.pluginID ≠ "builtin"

/-- The second part of the namespaced handle. -/
def Candidate.label (c : Candidate) : String := if c.isBuiltIn then "builtin" else c.pluginID

/-- One entry for each plugin, and one built-in at most. -/
structure WellFormed (baseID : String) (list : List Candidate) : Prop where
  listed : ∀ c ∈ list, Listed baseID c
  slots : (list.map Candidate.slot).Nodup
  single : ∀ c ∈ list, ∀ d ∈ list, c.isBuiltIn = true → d.isBuiltIn = true → c.slot = d.slot

theorem wellFormed_nil (baseID : String) : WellFormed baseID [] :=
  ⟨fun _ member => absurd member List.not_mem_nil, List.nodup_nil,
    fun _ member => absurd member List.not_mem_nil⟩

theorem updateFirst_eq_some {found : Candidate → Bool} {change : Candidate → Candidate}
    {list list' : List Candidate} (updated : Registry.updateFirst found change list = some list') :
    ∃ before c after, list = before ++ c :: after ∧ found c = true ∧
      list' = before ++ change c :: after := by
  induction list generalizing list' with
  | nil => contradiction
  | cons c rest induction =>
      rw [Registry.updateFirst] at updated
      split at updated
      · rename_i isFound
        cases updated
        exact ⟨[], c, rest, rfl, isFound, rfl⟩
      · rcases Option.map_eq_some_iff.mp updated with ⟨rest', inner, rfl⟩
        rcases induction inner with ⟨before, d, after, parts, isFound, changed⟩
        exact ⟨c :: before, d, after, by rw [parts]; rfl, isFound, by rw [changed]; rfl⟩

theorem updateFirst_eq_none {found : Candidate → Bool} {change : Candidate → Candidate}
    {list : List Candidate} (missing : Registry.updateFirst found change list = none) :
    ∀ c ∈ list, found c = false := by
  induction list with
  | nil => simp
  | cons c rest induction =>
      rw [Registry.updateFirst] at missing
      split at missing
      · contradiction
      · rename_i other
        intro d member
        rcases List.mem_cons.mp member with rfl | member
        · exact Bool.eq_false_iff.mpr other
        · exact induction (Option.map_eq_none_iff.mp missing) d member

namespace WellFormed

variable {baseID pref : String} {list : List Candidate}

theorem eq_of_slot (wf : WellFormed baseID list) {c d : Candidate} (member : c ∈ list)
    (other : d ∈ list) (same : c.slot = d.slot) : c = d :=
  List.inj_on_of_nodup_map wf.slots member other same

theorem filter (wf : WellFormed baseID list) (kept : Candidate → Bool) :
    WellFormed baseID (list.filter kept) := by
  refine ⟨fun c member => wf.listed c (List.mem_of_mem_filter member), ?_,
    fun c member d other => wf.single c (List.mem_of_mem_filter member) d
      (List.mem_of_mem_filter other)⟩
  exact wf.slots.sublist (List.filter_sublist.map _)

/-- An entry is replaced by one in the same slot. -/
theorem replace {before after : List Candidate} {c d : Candidate}
    (wf : WellFormed baseID (before ++ c :: after)) (listed : Listed baseID d)
    (sameSlot : d.slot = c.slot) : WellFormed baseID (before ++ d :: after) := by
  have slots : (before ++ d :: after).map Candidate.slot =
      (before ++ c :: after).map Candidate.slot := by
    simp [sameSlot]
  have old : ∀ e ∈ before ++ d :: after, ∃ e' ∈ before ++ c :: after, e'.slot = e.slot := by
    intro e member
    have slot : e.slot ∈ (before ++ c :: after).map Candidate.slot :=
      slots ▸ List.mem_map_of_mem member
    exact List.mem_map.mp slot
  refine ⟨fun e member => ?_, slots ▸ wf.slots, fun e member f other isBuiltIn alsoBuiltIn => ?_⟩
  · rcases List.mem_append.mp member with left | right
    · exact wf.listed e (List.mem_append_left _ left)
    · rcases List.mem_cons.mp right with rfl | right
      · exact listed
      · exact wf.listed e (List.mem_append_right _ (List.mem_cons_of_mem _ right))
  · rcases old e member with ⟨e', isOld, slot⟩
    rcases old f other with ⟨f', alsoOld, otherSlot⟩
    rw [← slot, ← otherSlot]
    apply wf.single e' isOld f' alsoOld
    · exact (congrArg Prod.snd slot).trans isBuiltIn
    · exact (congrArg Prod.snd otherSlot).trans alsoBuiltIn

theorem append (wf : WellFormed baseID list) {d : Candidate} (listed : Listed baseID d)
    (fresh : ∀ c ∈ list, c.slot ≠ d.slot)
    (single : d.isBuiltIn = true → ∀ c ∈ list, c.isBuiltIn = false) :
    WellFormed baseID (list ++ [d]) := by
  refine ⟨fun c member => ?_, ?_, fun c member e other isBuiltIn alsoBuiltIn => ?_⟩
  · rcases List.mem_append.mp member with member | member
    · exact wf.listed c member
    · exact (List.mem_singleton.mp member) ▸ listed
  · rw [List.map_append, List.map_singleton, ← List.concat_eq_append]
    refine List.Nodup.concat (fun member => ?_) wf.slots
    rcases List.mem_map.mp member with ⟨c, isIn, same⟩
    exact fresh c isIn same
  · rw [List.mem_append, List.mem_singleton] at member other
    rcases member with member | rfl <;> rcases other with other | rfl
    · exact wf.single c member e other isBuiltIn alsoBuiltIn
    · exact absurd isBuiltIn (by simp [single alsoBuiltIn c member])
    · exact absurd alsoBuiltIn (by simp [single isBuiltIn e other])
    · rfl

/-! ### Handles -/

theorem handle_eq (wf : WellFormed baseID list) {c : Candidate} (member : c ∈ list) :
    c.handle baseID = some (baseID ++ "@" ++ c.label) := by
  unfold Candidate.handle Candidate.label
  cases isBuiltIn : c.isBuiltIn with
  | true =>
      rw [if_pos rfl, if_pos rfl, String.append_assoc]
      rfl
  | false =>
      have named := ((wf.listed c member).plugin isBuiltIn).1.1
      rw [if_neg Bool.false_ne_true, if_pos named, if_neg Bool.false_ne_true]

theorem eq_of_label (wf : WellFormed baseID list) {c d : Candidate} (member : c ∈ list)
    (other : d ∈ list) (same : c.label = d.label) : c = d := by
  apply wf.eq_of_slot member other
  unfold Candidate.label at same
  cases isBuiltIn : c.isBuiltIn with
  | true =>
      cases alsoBuiltIn : d.isBuiltIn with
      | true => exact wf.single c member d other isBuiltIn alsoBuiltIn
      | false =>
          simp only [isBuiltIn, alsoBuiltIn, if_true, Bool.false_eq_true, if_false] at same
          exact absurd same.symm ((wf.listed d other).plugin alsoBuiltIn).2
  | false =>
      cases alsoBuiltIn : d.isBuiltIn with
      | true =>
          simp only [isBuiltIn, alsoBuiltIn, if_true, Bool.false_eq_true, if_false] at same
          exact absurd same ((wf.listed c member).plugin isBuiltIn).2
      | false =>
          simp only [isBuiltIn, alsoBuiltIn, Bool.false_eq_true, if_false] at same
          rw [Candidate.slot, Candidate.slot, same, isBuiltIn, alsoBuiltIn]

theorem eq_of_handle (wf : WellFormed baseID list) {c d : Candidate} (member : c ∈ list)
    (other : d ∈ list) (same : c.handle baseID = d.handle baseID) : c = d := by
  rw [wf.handle_eq member, wf.handle_eq other, Option.some_inj, String.append_right_inj] at same
  exact wf.eq_of_label member other same

theorem baseOf_handle (wf : WellFormed baseID list) {c : Candidate} (member : c ∈ list)
    {handle : String} (isHandle : c.handle baseID = some handle) :
    baseOf handle = baseID ∧ handle ≠ baseID := by
  have free := (wf.listed c member).base.2
  rw [wf.handle_eq member, Option.some_inj] at isHandle
  have chars : handle.toList = baseID.toList ++ '@' :: c.label.toList := by
    rw [← isHandle, String.toList_append, String.toList_append, List.append_assoc]
    rfl
  constructor
  · rw [baseOf, chars, cut_append free, String.ofList_toList]
  · intro same
    rw [same] at chars
    exact free (chars ▸ List.mem_append_right _ List.mem_cons_self)

/-! ### Routes -/

theorem entries_eq (wf : WellFormed baseID list) {winner : Candidate}
    (elected : elect pref list = some winner) :
    entries pref baseID list = (baseID, winner.provider) ::
      list.map fun c => (baseID ++ "@" ++ c.label, c.provider) := by
  have handles : ∀ c ∈ list, ((c.handle baseID).map fun handle => (handle, c.provider)) =
      some (baseID ++ "@" ++ c.label, c.provider) := by
    intro c member
    rw [wf.handle_eq member, Option.map_some]
  rw [entries, elected, List.filterMap_congr handles, List.filterMap_eq_map']

theorem entries_nodup (wf : WellFormed baseID list) :
    ((entries pref baseID list).map Prod.fst).Nodup := by
  cases elected : elect pref list with
  | none => simp [entries, elected]
  | some winner =>
      rw [wf.entries_eq elected, List.map_cons, List.map_map, List.nodup_cons]
      constructor
      · intro member
        rcases List.mem_map.mp member with ⟨c, isIn, same⟩
        exact (wf.baseOf_handle isIn (wf.handle_eq isIn)).2 same
      · apply List.Nodup.map_on _ (List.Nodup.of_map _ wf.slots)
        intro c member d other same
        exact wf.eq_of_label member other ((String.append_right_inj _).mp same)

theorem routeIn_eq_some_iff (wf : WellFormed baseID list) {handle : String} {p : Provider} :
    routeIn pref baseID list handle = some p ↔ (handle, p) ∈ entries pref baseID list := by
  constructor
  · exact mem_entries_of_routeIn
  · intro member
    cases found : routeIn pref baseID list handle with
    | none =>
        have missing := List.lookup_eq_none_iff.mp found _ (List.mem_reverse.mpr member)
        rw [bne_self_eq_false] at missing
        contradiction
    | some q =>
        have same := List.inj_on_of_nodup_map wf.entries_nodup (mem_entries_of_routeIn found)
          member rfl
        exact congrArg (some ∘ Prod.snd) same

/-! ### The winner -/

theorem eq_of_isNamed (wf : WellFormed baseID list) {c d : Candidate} (member : c ∈ list)
    (other : d ∈ list) (named : c.isNamed pref = true) (alsoNamed : d.isNamed pref = true) :
    c = d := by
  have label {c : Candidate} (named : c.isNamed pref = true) : c.label = pref := by
    unfold Candidate.isNamed at named
    unfold Candidate.label
    cases isBuiltIn : c.isBuiltIn with
    | true =>
        simp only [isBuiltIn, Bool.and_true, Bool.not_true, Bool.false_and, Bool.or_false,
          beq_iff_eq] at named
        rw [if_pos rfl, named]
    | false => simpa [isBuiltIn] using named
  exact wf.eq_of_label member other ((label named).trans (label alsoNamed).symm)

theorem eq_of_isBuiltIn (wf : WellFormed baseID list) {c d : Candidate} (member : c ∈ list)
    (other : d ∈ list) (isBuiltIn : c.isBuiltIn = true) (alsoBuiltIn : d.isBuiltIn = true) :
    c = d :=
  wf.eq_of_slot member other (wf.single c member d other isBuiltIn alsoBuiltIn)

end WellFormed

/-- The collision rules: the preferred candidate, else the built-in, else a highest version. -/
structure Elected (pref : String) (list : List Candidate) (winner : Candidate) : Prop where
  member : winner ∈ list
  preferred : ∀ c ∈ list, c.isNamed pref = true → winner = c
  builtIn : ∀ c ∈ list, c.isBuiltIn = true → (∀ d ∈ list, d.isNamed pref = false) → winner = c
  highest : (∀ c ∈ list, c.isBuiltIn = false) → (∀ d ∈ list, d.isNamed pref = false) →
    ∀ c ∈ list, rank c.version ≤ rank winner.version

theorem elect_isSome {pref : String} {list : List Candidate} (nonempty : list ≠ []) :
    ∃ winner, elect pref list = some winner := by
  unfold elect
  simp only
  split
  · rename_i chosen
    exact Option.isSome_iff_exists.mp (Bool.and_eq_true_iff.mp chosen).1
  split
  · rename_i chosen
    exact Option.isSome_iff_exists.mp chosen
  split
  · rename_i chosen
    exact Option.isSome_iff_exists.mp chosen
  · cases list with
    | nil => contradiction
    | cons first rest => exact ⟨_, rfl⟩

namespace WellFormed

variable {baseID pref : String} {list : List Candidate}

theorem not_isNamed_of_preferred (wf : WellFormed baseID list)
    (missing : preferred pref list = none) : ∀ c ∈ list, c.isNamed pref = false := by
  intro c member
  unfold preferred at missing
  split at missing
  · exact Bool.eq_false_iff.mpr (List.find?_eq_none.mp missing c member)
  · rename_i unset
    have noPreference : pref = "" := not_ne_iff.mp unset
    unfold Candidate.isNamed
    cases isBuiltIn : c.isBuiltIn with
    | true => simp [noPreference]
    | false =>
        have named := ((wf.listed c member).plugin isBuiltIn).1.1
        simp [noPreference, named]

theorem elected (wf : WellFormed baseID list) {winner : Candidate}
    (elected : elect pref list = some winner) : Elected pref list winner := by
  have isIn := mem_elect elected
  have builtIn {c : Candidate} (found : list.find? Candidate.isBuiltIn = some c) :
      c.isBuiltIn = true := List.find?_some found
  unfold elect at elected
  simp only at elected
  split at elected
  · rename_i chosen
    have default := (Bool.and_eq_true_iff.mp chosen).2
    refine ⟨isIn, fun c member named => ?_, fun c member alsoBuiltIn _ =>
      wf.eq_of_isBuiltIn isIn member (builtIn elected) alsoBuiltIn, fun none _ => ?_⟩
    · by_cases unset : pref = ""
      · have missing : preferred pref list = none := by simp [preferred, unset]
        exact absurd named (by simp [wf.not_isNamed_of_preferred missing c member])
      · have named' : winner.isNamed pref = true := by
          simpa [Candidate.isNamed, builtIn elected, unset] using default
        exact wf.eq_of_isNamed isIn member named' named
    · exact absurd (builtIn elected) (by simp [none winner isIn])
  split at elected
  · have named := (preferred_eq_some elected).2.2
    refine ⟨isIn, fun c member alsoNamed => wf.eq_of_isNamed isIn member named alsoNamed,
      fun c _ _ none => ?_, fun _ none => ?_⟩
    · exact absurd named (by simp [none winner isIn])
    · exact absurd named (by simp [none winner isIn])
  rename_i missing
  have notNamed := wf.not_isNamed_of_preferred (Option.not_isSome_iff_eq_none.mp missing)
  split at elected
  · refine ⟨isIn, fun c member named => ?_, fun c member alsoBuiltIn _ =>
      wf.eq_of_isBuiltIn isIn member (builtIn elected) alsoBuiltIn, fun none _ => ?_⟩
    · exact absurd named (by simp [notNamed c member])
    · exact absurd (builtIn elected) (by simp [none winner isIn])
  · rename_i noBuiltIn
    have missing := List.find?_eq_none.mp (Option.not_isSome_iff_eq_none.mp noBuiltIn)
    refine ⟨isIn, fun c member named => ?_, fun c member alsoBuiltIn _ => ?_,
      fun _ _ => (highestVersion_spec elected).2⟩
    · exact absurd named (by simp [notNamed c member])
    · exact absurd alsoBuiltIn (missing c member)

end WellFormed

theorem owns_iff {baseID handle : String} (free : '@' ∉ baseID.toList) :
    Owns baseID handle ↔ baseOf handle = baseID := by
  unfold Owns baseOf
  constructor
  · rintro (same | longer)
    · rw [same, cut_of_absent free, String.ofList_toList]
    · rw [hasPrefix, List.isPrefixOf_iff_prefix, String.toList_append] at longer
      rcases longer with ⟨rest, parts⟩
      have chars : baseID.toList ++ '@' :: rest = handle.toList := by
        rw [← parts, List.append_assoc]
        rfl
      rw [← chars, cut_append free, String.ofList_toList]
  · intro same
    rcases parts : cut '@' handle.toList with ⟨before, after⟩
    rw [parts] at same
    have whole := eq_of_cut parts
    cases after with
    | none =>
        left
        rw [← same, ← @String.ofList_toList handle, whole]
        simp
    | some rest =>
        right
        rw [hasPrefix, List.isPrefixOf_iff_prefix, ← same, whole]
        exact ⟨rest, by simp⟩

namespace Registry

variable {r r' : Registry} {baseID pref : String} {list : List Candidate}

/-! ## The invariant -/

structure Valid (r : Registry) : Prop where
  current : r.Current
  free : ∀ baseID ∈ r.candidates, '@' ∉ baseID.toList
  lists : ∀ baseID, WellFormed baseID (r.candidatesOf baseID)
  cached : ∀ t key, (r.table t).lookup key = (r.route key).filter (·.isIn t)

theorem valid_new : Valid new := by
  refine ⟨current_new, fun _ member => absurd member (AList.notMem_empty _),
    fun baseID => wellFormed_nil baseID, fun t key => ?_⟩
  have nothing : new.route key = none := by
    rw [route, routeIn, show new.candidatesOf (baseOf key) = [] from rfl, entries_nil]
    rfl
  rw [nothing]
  cases t <;> rfl

theorem Recomputed.valid (recomputed : Recomputed r r' baseID list pref) (valid : r.Valid)
    (free : '@' ∉ baseID.toList) (wf : WellFormed baseID list) : r'.Valid := by
  refine ⟨recomputed.current valid.current, fun other member => ?_, fun other => ?_,
    fun t key => ?_⟩
  · rcases recomputed.keys other member with rfl | member
    · exact free
    · exact valid.free other member
  · rw [recomputed.candidates]
    split
    · rename_i same
      exact same ▸ wf
    · exact valid.lists other
  · rw [recomputed.routes, route, recomputed.candidates, recomputed.preference]
    by_cases owns : Owns baseID key
    · have same := (owns_iff free).mp owns
      rw [if_pos owns, if_pos same, if_pos same, same]
    · have different := mt (owns_iff free).mpr owns
      rw [if_neg owns, if_neg different, if_neg different]
      exact valid.cached t key

/-- The ids are free of `@` and not empty, there is one built-in at most for each of them,
and a replacement has the ids of what it replaces. -/
def Admissible (r : Registry) : Operation → Prop
  | .register none => True
  | .register (some p) => IsID p.id ∧
      (p.registeredBuiltIn = false →
        IsID p.registeredPluginID ∧ p.registeredPluginID ≠ "builtin") ∧
      (p.registeredBuiltIn = true → ∀ c ∈ r.candidatesOf p.id, c.isBuiltIn = true →
        c.pluginID = p.registeredPluginID)
  | .swapProvider _ oldProv newProv =>
      newProv.id = oldProv.id ∧ newProv.registeredPluginID = oldProv.registeredPluginID
  | .unregister _ => True
  | .unregisterPlugin _ => True
  | .setUserPreference providerID _ => IsID providerID

instance (r : Registry) (operation : Operation) : Decidable (r.Admissible operation) :=
  match operation with
  | .register none => .isTrue trivial
  | .register (some _) => inferInstanceAs (Decidable (_ ∧ _ ∧ _))
  | .swapProvider _ _ _ => inferInstanceAs (Decidable (_ ∧ _))
  | .unregister _ => .isTrue trivial
  | .unregisterPlugin _ => .isTrue trivial
  | .setUserPreference _ _ => inferInstanceAs (Decidable (_ ∧ _))

theorem wellFormed_registered {p : Provider} (valid : r.Valid)
    (admissible : r.Admissible (.register (some p))) :
    WellFormed p.id (registered p (r.candidatesOf p.id)) := by
  rcases admissible with ⟨isID, plugin, single⟩
  have wf := valid.lists p.id
  have listed : Listed p.id (Candidate.ofProvider p) := ⟨isID, rfl, rfl, plugin⟩
  unfold registered
  cases updated : updateFirst (fun c => c.slot == (Candidate.ofProvider p).slot)
      (fun _ => Candidate.ofProvider p) (r.candidatesOf p.id) with
  | none =>
      have fresh := updateFirst_eq_none updated
      refine wf.append listed (fun c member => by simpa using fresh c member)
        fun isBuiltIn c member => ?_
      by_contra alsoBuiltIn
      have alsoBuiltIn := Bool.of_not_eq_false alsoBuiltIn
      have same : c.slot = (Candidate.ofProvider p).slot :=
        Prod.ext (single isBuiltIn c member alsoBuiltIn) (alsoBuiltIn.trans isBuiltIn.symm)
      simpa [same] using fresh c member
  | some list =>
      rcases updateFirst_eq_some updated with ⟨before, c, after, parts, found, changed⟩
      rw [Option.getD_some, changed]
      exact (parts ▸ wf).replace listed (beq_iff_eq.mp found).symm

theorem wellFormed_swapped {oldProv newProv : Provider} (wf : WellFormed baseID list)
    (sameID : newProv.id = oldProv.id)
    (samePlugin : newProv.registeredPluginID = oldProv.registeredPluginID)
    {list' : List Candidate}
    (updated : updateFirst (fun c => c.provider = oldProv) (swapped newProv) list = some list') :
    '@' ∉ baseID.toList ∧ WellFormed baseID list' := by
  rcases updateFirst_eq_some updated with ⟨before, c, after, parts, found, rfl⟩
  have isOld : c.provider = oldProv := of_decide_eq_true found
  rw [parts] at wf
  have listed := wf.listed c (List.mem_append_right _ List.mem_cons_self)
  refine ⟨listed.base.2, wf.replace ⟨listed.base, ?_, ?_, listed.plugin⟩ rfl⟩
  · rw [← listed.id, isOld]
    exact sameID
  · exact (isOld ▸ listed.pluginID).trans samePlugin.symm

theorem keepCandidates_valid (valid : r.Valid) (free : '@' ∉ baseID.toList)
    (kept : Candidate → Bool) :
    (r.keepCandidates baseID ((r.candidatesOf baseID).filter kept)).Valid :=
  (recomputed_keepCandidates valid.current.contained baseID _).valid valid free
    ((valid.lists baseID).filter kept)

theorem valid_apply (valid : r.Valid) {operation : Operation}
    (admissible : r.Admissible operation) : (r.apply operation).Valid := by
  cases operation with
  | register p =>
      cases p with
      | none => exact valid
      | some p =>
          exact (recomputed_register valid.current.contained p).valid valid admissible.1.2
            (wellFormed_registered valid admissible)
  | swapProvider baseID oldProv newProv =>
      change (r.swapProvider baseID oldProv newProv).2.Valid
      rcases swapProvider_cases valid.current.contained baseID oldProv newProv with
        same | ⟨list, updated, recomputed⟩
      · rwa [same]
      · have kept := wellFormed_swapped (valid.lists baseID) admissible.1 admissible.2 updated
        exact recomputed.valid valid kept.1 kept.2
  | unregister id =>
      change (r.unregister id).Valid
      have free := not_mem_cut '@' id.toList
      unfold unregister
      split
      · rename_i parts
        rw [parts] at free
        exact keepCandidates_valid valid (by rwa [String.toList_ofList]) _
      · rename_i parts
        have whole := eq_of_cut parts
        rw [parts] at free
        refine keepCandidates_valid valid ?_ _
        rw [whole]
        simpa using free
  | unregisterPlugin pluginID =>
      change (r.unregisterPlugin pluginID).Valid
      have free : ∀ baseID ∈ r.candidates.keys, '@' ∉ baseID.toList := valid.free
      clear admissible
      unfold unregisterPlugin
      revert free
      generalize r.candidates.keys = bases
      intro free
      induction bases generalizing r with
      | nil => exact valid
      | cons baseID bases induction =>
          rw [List.forall_mem_cons] at free
          exact induction (keepCandidates_valid valid free.1 _) free.2
  | setUserPreference providerID preferredSource =>
      exact (recomputed_setUserPreference valid.current.contained providerID
        preferredSource).valid valid admissible.2 (valid.lists providerID)

/-! ## The routing is exact -/

/-- What the four maps hold, in terms of the candidates and the preferences alone. -/
structure Exact (r : Registry) : Prop where
  /-- The handles are the base ids with a candidate and one namespaced handle for each. -/
  keys : ∀ key, r.get key ≠ none ↔ r.candidatesOf key ≠ [] ∨
    ∃ baseID, ∃ c ∈ r.candidatesOf baseID, c.handle baseID = some key
  distinct : ∀ baseID, ∀ c ∈ r.candidatesOf baseID, ∀ handle, c.handle baseID = some handle →
    r.candidatesOf handle = [] ∧
      ∀ other, ∀ d ∈ r.candidatesOf other, d.handle other = some handle → other = baseID ∧ d = c
  handles : ∀ baseID, ∀ c ∈ r.candidatesOf baseID, ∃ handle, c.handle baseID = some handle ∧
    r.get handle = some c.provider
  bases : ∀ baseID, r.candidatesOf baseID ≠ [] →
    ∃ winner, Elected (r.preference baseID) (r.candidatesOf baseID) winner ∧
      r.get baseID = some winner.provider
  capabilities : ∀ key, r.getMetadata key = (r.get key).filter (·.isMetadata) ∧
    r.getContent key = (r.get key).filter (·.isContent) ∧
    r.getTracking key = (r.get key).filter (·.isTracking)
  lookups : ∀ p, r.Finds p → ∃ c ∈ r.candidatesOf p.id, c.provider = p

namespace Valid

theorem get_eq (valid : r.Valid) (key : String) : r.get key = r.route key := by
  change (r.table .provs).lookup key = _
  rw [valid.cached]
  cases r.route key with
  | none => rfl
  | some p => rfl

theorem free_of_mem (valid : r.Valid) {c : Candidate} (member : c ∈ r.candidatesOf baseID) :
    '@' ∉ baseID.toList :=
  ((valid.lists baseID).listed c member).base.2

theorem get_of_mem_entries (valid : r.Valid) {key : String} {p : Provider}
    (member : (key, p) ∈ entries (r.preference baseID) baseID (r.candidatesOf baseID)) :
    r.get key = some p := by
  rcases owns_of_mem_entries member with ⟨owns, c, listed, _⟩
  rw [valid.get_eq, route, (owns_iff (valid.free_of_mem listed)).mp owns,
    (valid.lists baseID).routeIn_eq_some_iff]
  exact member

theorem mem_entries_of_get (valid : r.Valid) {key : String} {p : Provider}
    (found : r.get key = some p) :
    (key, p) ∈ entries (r.preference (baseOf key)) (baseOf key) (r.candidatesOf (baseOf key)) := by
  rw [valid.get_eq] at found
  exact mem_entries_of_routeIn found

theorem get_winner (valid : r.Valid) {winner : Candidate}
    (elected : elect (r.preference baseID) (r.candidatesOf baseID) = some winner) :
    r.get baseID = some winner.provider := by
  apply valid.get_of_mem_entries
  rw [(valid.lists baseID).entries_eq elected]
  exact List.mem_cons_self

theorem get_handle (valid : r.Valid) {c : Candidate} (member : c ∈ r.candidatesOf baseID) :
    r.get (baseID ++ "@" ++ c.label) = some c.provider := by
  rcases @elect_isSome (r.preference baseID) _ (List.ne_nil_of_mem member) with ⟨winner, elected⟩
  apply valid.get_of_mem_entries
  rw [(valid.lists baseID).entries_eq elected]
  exact List.mem_cons_of_mem _ (List.mem_map.mpr ⟨c, member, rfl⟩)

theorem exact (valid : r.Valid) : r.Exact := by
  refine ⟨fun key => ⟨fun present => ?_, fun listed => ?_⟩, fun baseID c member handle isHandle =>
    ⟨?_, fun other d alsoMember alsoHandle => ?_⟩, fun baseID c member =>
    ⟨_, (valid.lists baseID).handle_eq member, valid.get_handle member⟩, fun baseID nonempty => ?_,
    fun key => ?_, fun p finds => ?_⟩
  · rcases Option.ne_none_iff_exists'.mp present with ⟨p, found⟩
    have member := valid.mem_entries_of_get found
    rcases (owns_of_mem_entries member).2 with ⟨c, listed, _⟩
    rcases @elect_isSome (r.preference (baseOf key)) _ (List.ne_nil_of_mem listed) with
      ⟨winner, elected⟩
    rw [(valid.lists (baseOf key)).entries_eq elected] at member
    rcases List.mem_cons.mp member with isWinner | isHandle
    · left
      rw [(Prod.mk.inj isWinner).1]
      exact List.ne_nil_of_mem listed
    · right
      rcases List.mem_map.mp isHandle with ⟨d, alsoListed, same⟩
      refine ⟨baseOf key, d, alsoListed, ?_⟩
      rw [(valid.lists (baseOf key)).handle_eq alsoListed, (Prod.mk.inj same).1]
  · rcases listed with nonempty | ⟨baseID, c, member, isHandle⟩
    · rcases @elect_isSome (r.preference key) _ nonempty with ⟨winner, elected⟩
      rw [valid.get_winner elected]
      exact Option.some_ne_none _
    · rw [(valid.lists baseID).handle_eq member, Option.some_inj] at isHandle
      rw [← isHandle, valid.get_handle member]
      exact Option.some_ne_none _
  · by_contra nonempty
    rcases List.exists_mem_of_ne_nil _ nonempty with ⟨d, listed⟩
    have base := ((valid.lists baseID).baseOf_handle member isHandle)
    have whole := (owns_iff (valid.free_of_mem listed)).mp (.inl rfl)
    exact base.2 (whole.symm.trans base.1)
  · have base := ((valid.lists baseID).baseOf_handle member isHandle).1
    have otherBase := ((valid.lists other).baseOf_handle alsoMember alsoHandle).1
    rcases otherBase.symm.trans base with rfl
    exact ⟨rfl, (valid.lists _).eq_of_handle alsoMember member (alsoHandle.trans isHandle.symm)⟩
  · rcases @elect_isSome (r.preference baseID) _ nonempty with ⟨winner, elected⟩
    exact ⟨winner, (valid.lists baseID).elected elected, valid.get_winner elected⟩
  · rw [valid.get_eq]
    exact ⟨valid.cached .metadata key, valid.cached .content key, valid.cached .tracking key⟩
  · rcases valid.current.candidate_of_finds finds with ⟨baseID, c, member, same⟩
    have isBase := ((valid.lists baseID).listed c member).id
    rw [same] at isBase
    exact ⟨c, isBase ▸ member, same⟩

end Valid

/-! ## Runs of operations -/

def step : StepFunction Registry Operation := fun r operation => some (r.apply operation)

/-- The operation puts the provider into the registry. -/
def Operation.Brings (p : Provider) : Operation → Prop
  | .register q => q = some p
  | .swapProvider _ _ newProv => newProv = p
  | _ => False

theorem valid_of_run {first last : Registry} {operations : List Operation}
    (run : Run step Admissible first operations last) (valid : first.Valid) : last.Valid := by
  apply run.invariant Valid _ valid
  rintro r operation _ admissible valid ⟨⟩
  exact valid_apply valid admissible

/-- No entry holds the provider. -/
def Lacks (p : Provider) (r : Registry) : Prop :=
  ∀ baseID, ∀ c ∈ r.candidatesOf baseID, c.provider ≠ p

theorem Recomputed.lacks {p : Provider} (recomputed : Recomputed r r' baseID list pref)
    (lacks : r.Lacks p) (listLacks : ∀ c ∈ list, c.provider ≠ p) : r'.Lacks p := by
  intro other c member
  rw [recomputed.candidates] at member
  split at member
  · exact listLacks c member
  · exact lacks other c member

theorem keepCandidates_lacks {p : Provider} (contained : r.Contained) (lacks : r.Lacks p)
    (kept : Candidate → Bool) :
    (r.keepCandidates baseID ((r.candidatesOf baseID).filter kept)).Lacks p :=
  (recomputed_keepCandidates contained baseID _).lacks lacks
    fun c member => lacks baseID c (List.mem_of_mem_filter member)

theorem updateFirst_lacks {p : Provider} {found : Candidate → Bool}
    {change : Candidate → Candidate} {list' : List Candidate}
    (lacks : ∀ c ∈ list, c.provider ≠ p) (changed : ∀ c, (change c).provider ≠ p)
    (updated : updateFirst found change list = some list') : ∀ c ∈ list', c.provider ≠ p := by
  rcases updateFirst_eq_some updated with ⟨before, c, after, rfl, _, rfl⟩
  intro d member
  rcases List.mem_append.mp member with left | right
  · exact lacks d (List.mem_append_left _ left)
  · rcases List.mem_cons.mp right with rfl | right
    · exact changed c
    · exact lacks d (List.mem_append_right _ (List.mem_cons_of_mem _ right))

theorem lacks_apply {p : Provider} (contained : r.Contained) (lacks : r.Lacks p)
    {operation : Operation} (other : ¬ operation.Brings p) : (r.apply operation).Lacks p := by
  cases operation with
  | register q =>
      cases q with
      | none => exact lacks
      | some q =>
          have different : q ≠ p := fun same => other (congrArg some same)
          refine (recomputed_register contained q).lacks lacks ?_
          unfold registered
          cases updated : updateFirst (fun c => c.slot == (Candidate.ofProvider q).slot)
              (fun _ => Candidate.ofProvider q) (r.candidatesOf q.id) with
          | none =>
              intro c member
              rcases List.mem_append.mp member with member | member
              · exact lacks q.id c member
              · exact (List.mem_singleton.mp member) ▸ different
          | some list =>
              exact updateFirst_lacks (lacks q.id) (fun _ => different) updated
  | swapProvider baseID oldProv newProv =>
      change (r.swapProvider baseID oldProv newProv).2.Lacks p
      rcases swapProvider_cases contained baseID oldProv newProv with
        same | ⟨list, updated, recomputed⟩
      · rwa [same]
      · have different : ∀ c, (swapped newProv c).provider ≠ p := fun _ => other
        exact recomputed.lacks lacks (updateFirst_lacks (lacks baseID) different updated)
  | unregister id =>
      change (r.unregister id).Lacks p
      unfold unregister
      split
      · exact keepCandidates_lacks contained lacks _
      · exact keepCandidates_lacks contained lacks _
  | unregisterPlugin pluginID =>
      change (r.unregisterPlugin pluginID).Lacks p
      unfold unregisterPlugin
      induction r.candidates.keys generalizing r with
      | nil => exact lacks
      | cons baseID bases induction =>
          exact induction ((recomputed_keepCandidates contained baseID _).contained contained)
            (keepCandidates_lacks contained lacks _)
  | setUserPreference providerID preferredSource =>
      exact (recomputed_setUserPreference contained providerID preferredSource).lacks lacks
        (lacks providerID)

theorem lacks_of_run {p : Provider} {first last : Registry} {operations : List Operation}
    (run : Run step Admissible first operations last) (valid : first.Valid)
    (lacks : first.Lacks p) (foreign : ∀ operation ∈ operations, ¬ operation.Brings p) :
    last.Lacks p := by
  induction run with
  | nil => exact lacks
  | cons admissible taken _ induction =>
      cases taken
      rw [List.forall_mem_cons] at foreign
      exact induction (valid_apply valid admissible)
        (lacks_apply valid.current.contained lacks foreign.1) foreign.2

/-- A built-in and two plugins for one id. The preferred plugin is replaced by a new build
and goes, then the built-in. -/
def collisions : List Operation :=
  [.register (some { object := 0, id := "mangadex", isMetadata := true }),
    .register (some pluginA),
    .register (some
      { object := 2, id := "mangadex", pluginID := some "plugin-b", version := some "1.2.0" }),
    .setUserPreference "mangadex" "plugin-a",
    .swapProvider "mangadex" pluginA { pluginA with object := 3, version := some "1.10.0" },
    .unregisterPlugin "plugin-a",
    .unregister "mangadex@builtin"]
where
  pluginA : Provider :=
    { object := 1, id := "mangadex", pluginID := some "plugin-a", version := some "1.0.0",
      isMetadata := true }

end Registry

end Kiyomi.Provider
