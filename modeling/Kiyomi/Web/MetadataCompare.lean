import Kiyomi.Api.ConcernHandler
import Mathlib.Data.Finset.Card
import Mathlib.Data.Finset.Dedup

namespace Kiyomi.Web

open Api Library

/-! # Comparing metadata before an import

The import dialog offers to merge two lists where their comparison tells them apart. -/

/-! ## Lower case -/

/-- The full case mapping of Unicode: what a character becomes between the characters before
it, the nearest one first, and those behind it. -/
structure CaseMapping where
  lower : List Char → Char → List Char → List Char
  lower_ne_nil : ∀ before c after, lower before c after ≠ []

namespace CaseMapping

variable (mapping : CaseMapping)

def lowerFrom (before : List Char) : List Char → List Char
  | [] => []
  | c :: after => mapping.lower before c after ++ lowerFrom (c :: before) after

def toLowerCase (s : String) : String := String.ofList (mapping.lowerFrom [] s.toList)

theorem toLowerCase_eq_empty_iff (s : String) : mapping.toLowerCase s = "" ↔ s = "" := by
  rw [toLowerCase, ← String.toList_inj, String.toList_ofList, ← String.toList_inj]
  cases s.toList with
  | nil => rfl
  | cons c after => simp [lowerFrom, mapping.lower_ne_nil]

/-- The mapping of ASCII. -/
def ascii : CaseMapping where
  lower _ c _ := [c.toLower]
  lower_ne_nil _ c _ := List.cons_ne_nil c.toLower []

end CaseMapping

section Compare

variable (mapping : CaseMapping)

/-! ## The comparisons -/

/-- The loop behind both comparisons. -/
def areSetsEqual (setA setB : Finset String) : Bool :=
  if setA.card ≠ setB.card then false else decide (∀ item ∈ setA, item ∈ setB)

def normalizeSet (items : List String) : Finset String :=
  ((items.map fun s => mapping.toLowerCase (trim s)).filter (· ≠ "")).toFinset

/-- An absent list is an empty one. -/
def areArraySetsEqual (a b : List String) : Bool :=
  areSetsEqual (normalizeSet mapping a) (normalizeSet mapping b)

def hasUrl (l : ExternalLink) : Bool := trim l.url ≠ ""

def urlSet (links : List ExternalLink) : Finset String :=
  (links.map fun l => mapping.toLowerCase (trim l.url)).toFinset

def areExternalLinkSetsEqual (a b : List ExternalLink) : Bool :=
  let linksA := a.filter hasUrl
  let linksB := b.filter hasUrl
  if linksA.length ≠ linksB.length then false
  else areSetsEqual (urlSet mapping linksA) (urlSet mapping linksB)

/-! ## What a merge adds -/

variable {mapping} {a b : List String} {linksA linksB : List ExternalLink}

theorem areSetsEqual_iff {setA setB : Finset String} :
    areSetsEqual setA setB = true ↔ setA = setB := by
  rw [areSetsEqual]
  constructor
  · intro equal
    split at equal
    · contradiction
    · rename_i card
      exact Finset.eq_of_subset_of_card_le (of_decide_eq_true equal) (not_not.mp card).ge
  · rintro rfl
    simp

/-- The entries of a list up to blanks around them. -/
def entries (items : List String) : List String := (items.map trim).filter (· ≠ "")

theorem mem_normalizeSet {key : String} :
    key ∈ normalizeSet mapping a ↔ key ∈ (entries a).map mapping.toLowerCase := by
  have blank (s : String) : mapping.toLowerCase s ≠ "" ↔ s ≠ "" :=
    not_congr (mapping.toLowerCase_eq_empty_iff s)
  simp only [normalizeSet, entries, List.mem_toFinset, List.mem_filter, List.mem_map,
    decide_eq_true_eq]
  constructor
  · rintro ⟨⟨s, member, rfl⟩, proper⟩
    exact ⟨trim s, ⟨⟨s, member, rfl⟩, (blank _).mp proper⟩, rfl⟩
  · rintro ⟨_, ⟨⟨s, member, rfl⟩, proper⟩, rfl⟩
    exact ⟨⟨s, member, rfl⟩, (blank _).mpr proper⟩

theorem mergeStringArrays_eq_unseen (arrays : List (List String)) :
    mergeStringArrays mapping.toLowerCase arrays =
      unseen mapping.toLowerCase [] (arrays.map entries).flatten := by
  rw [mergeStringArrays, keepFirst_eq_unseen, List.map_flatten, List.filter_flatten, List.map_map]
  rfl

theorem mergeStringArrays_adds_nothing_iff :
    (mergeStringArrays mapping.toLowerCase [a, b]).length ≤
        (mergeStringArrays mapping.toLowerCase [a]).length ↔
      normalizeSet mapping b ⊆ normalizeSet mapping a := by
  simp only [mergeStringArrays_eq_unseen, List.map_cons, List.map_nil, List.flatten_cons,
    List.flatten_nil, List.append_nil, length_unseen_append_le_iff]
  simp only [Finset.subset_iff, mem_normalizeSet, List.forall_mem_map]

/-- What links merge to is decided by their URLs. -/
theorem map_url_mergeLinks (seen : List String) (links : List ExternalLink) :
    (mergeLinks mapping.toLowerCase seen links).map (·.url) =
      keepFirst trim mapping.toLowerCase seen (links.map (·.url)) := by
  induction links generalizing seen with
  | nil => rfl
  | cons item links induction =>
      rw [List.map_cons, mergeLinks, keepFirst]
      split
      · exact induction seen
      · rw [List.map_cons, induction]

theorem length_mergeExternalLinkArrays (arrays : List (List ExternalLink)) :
    (mergeExternalLinkArrays mapping.toLowerCase arrays).length =
      (mergeStringArrays mapping.toLowerCase (arrays.map (List.map (·.url)))).length := by
  rw [mergeStringArrays, ← List.map_flatten, ← map_url_mergeLinks, List.length_map,
    mergeExternalLinkArrays]

theorem urlSet_eq (links : List ExternalLink) :
    urlSet mapping (links.filter hasUrl) = normalizeSet mapping (links.map (·.url)) := by
  ext key
  rw [mem_normalizeSet, urlSet, entries, List.map_map, List.filter_map, List.map_map]
  exact List.mem_toFinset

theorem areArraySetsEqual_iff : areArraySetsEqual mapping a b = true ↔
    (mergeStringArrays mapping.toLowerCase [a, b]).length ≤
        (mergeStringArrays mapping.toLowerCase [a]).length ∧
      (mergeStringArrays mapping.toLowerCase [b, a]).length ≤
        (mergeStringArrays mapping.toLowerCase [b]).length := by
  rw [mergeStringArrays_adds_nothing_iff, mergeStringArrays_adds_nothing_iff, areArraySetsEqual,
    areSetsEqual_iff, Finset.Subset.antisymm_iff, and_comm]

theorem mergeExternalLinkArrays_adds_nothing_iff :
    (mergeExternalLinkArrays mapping.toLowerCase [linksA, linksB]).length ≤
        (mergeExternalLinkArrays mapping.toLowerCase [linksA]).length ↔
      urlSet mapping (linksB.filter hasUrl) ⊆ urlSet mapping (linksA.filter hasUrl) := by
  rw [length_mergeExternalLinkArrays, length_mergeExternalLinkArrays, urlSet_eq, urlSet_eq]
  exact mergeStringArrays_adds_nothing_iff

theorem areExternalLinkSetsEqual_iff : areExternalLinkSetsEqual mapping linksA linksB = true ↔
    linksA.countP hasUrl = linksB.countP hasUrl ∧
      urlSet mapping (linksA.filter hasUrl) = urlSet mapping (linksB.filter hasUrl) := by
  rw [areExternalLinkSetsEqual, List.countP_eq_length_filter, List.countP_eq_length_filter]
  split
  · rename_i different
    simp [different]
  · rename_i same
    rw [areSetsEqual_iff, and_iff_right (not_not.mp same)]

/-! ## When comparison and merge agree -/

variable (mapping) in
/-- Some link has this URL, up to blanks around it and to case. -/
def Lists (links : List ExternalLink) (key : String) : Prop :=
  ∃ l ∈ links, trim l.url ≠ "" ∧ mapping.toLowerCase (trim l.url) = key

theorem mem_urlSet {links : List ExternalLink} {key : String} :
    key ∈ urlSet mapping (links.filter hasUrl) ↔ Lists mapping links key := by
  simp only [urlSet, Lists, hasUrl, List.mem_toFinset, List.mem_map, List.mem_filter,
    decide_eq_true_eq, and_assoc]

theorem urlSet_eq_iff :
    urlSet mapping (linksA.filter hasUrl) = urlSet mapping (linksB.filter hasUrl) ↔
      ∀ key, Lists mapping linksA key ↔ Lists mapping linksB key := by
  simp only [Finset.ext_iff, mem_urlSet]

variable (mapping) in
/-- The comparison of links counts them with their repetitions, which a merge does not. -/
theorem comparisons_agree_iff (linksA linksB : List ExternalLink) (a b : List String) :
    ((areExternalLinkSetsEqual mapping linksA linksB = true ↔
        (mergeExternalLinkArrays mapping.toLowerCase [linksA, linksB]).length ≤
            (mergeExternalLinkArrays mapping.toLowerCase [linksA]).length ∧
          (mergeExternalLinkArrays mapping.toLowerCase [linksB, linksA]).length ≤
            (mergeExternalLinkArrays mapping.toLowerCase [linksB]).length) ∧
      (areArraySetsEqual mapping a b = true ↔
        (mergeStringArrays mapping.toLowerCase [a, b]).length ≤
            (mergeStringArrays mapping.toLowerCase [a]).length ∧
          (mergeStringArrays mapping.toLowerCase [b, a]).length ≤
            (mergeStringArrays mapping.toLowerCase [b]).length)) ↔
      ((∀ key, Lists mapping linksA key ↔ Lists mapping linksB key) →
        linksA.countP hasUrl = linksB.countP hasUrl) := by
  rw [and_iff_left areArraySetsEqual_iff, mergeExternalLinkArrays_adds_nothing_iff,
    mergeExternalLinkArrays_adds_nothing_iff, areExternalLinkSetsEqual_iff, ← urlSet_eq_iff]
  rw [and_comm (b := _ ⊆ urlSet mapping _), ← Finset.Subset.antisymm_iff, and_iff_right_iff_imp]

def homepage : ExternalLink where
  provider := "custom"
  label := "Homepage"
  url := "https://a.example/"

theorem repeated_link_differs :
    let merged := fun arrays =>
      (mergeExternalLinkArrays CaseMapping.ascii.toLowerCase arrays).length
    areExternalLinkSetsEqual .ascii [homepage] [homepage, homepage] = false ∧
      merged [[homepage], [homepage, homepage]] ≤ merged [[homepage]] ∧
      merged [[homepage, homepage], [homepage]] ≤ merged [[homepage, homepage]] := by
  decide +kernel

end Compare

end Kiyomi.Web
