import Kiyomi.Library.Documents

namespace Kiyomi.Api

open Go Library

/-! # The endpoints of the concern files

`PATCH` of the metadata and of the user state of a manga, and the request that the import
dialog of the web client sends. -/

/-- The body of a metadata request; an absent field is not in the body. -/
structure MetadataPatch where
  title : Option String
  aliases : Option (List String)
  description : Option String
  authors : Option (List String)
  artists : Option (List String)
  tags : Option (List String)
  collections : Option (List String)
  publishers : Option (List String)
  releaseYear : Option Int
  startDate : Option String
  endDate : Option String
  country : Option String
  contentRating : Option String
  coverURL : Option String
  externalLinks : Option (List ExternalLink)
  deriving DecidableEq, Repr

structure UserStatePatch where
  status : Option String
  rating : Option Rat
  favorite : Option Bool
  notes : Option String
  lastReadChapterID : Option String
  lastReadAt : Option Time
  addedAt : Option Time
  updatedAt : Option Time
  deriving DecidableEq, Repr

/-- The body decoded into a `library.MangaMetadata`. -/
def MetadataPatch.decoded (body : MetadataPatch) : MangaMetadata where
  title := body.title.getD ""
  aliases := body.aliases
  description := body.description.getD ""
  authors := body.authors
  artists := body.artists
  tags := body.tags
  collections := body.collections
  publishers := body.publishers
  releaseYear := body.releaseYear.getD 0
  startDate := body.startDate.getD ""
  endDate := body.endDate.getD ""
  country := body.country.getD ""
  contentRating := body.contentRating.getD ""
  coverURL := body.coverURL.getD ""
  externalLinks := body.externalLinks

/-- The body decoded into a `library.UserState`. -/
def UserStatePatch.decoded (body : UserStatePatch) : UserState where
  status := body.status.getD ""
  rating := body.rating.getD 0
  favorite := body.favorite.getD false
  notes := body.notes.getD ""
  lastReadChapterID := body.lastReadChapterID.getD ""
  lastReadAt := body.lastReadAt.getD Time.zero
  addedAt := body.addedAt.getD Time.zero
  updatedAt := body.updatedAt.getD Time.zero

/-- The three concern files of one manga, as their readers return them. -/
structure Concerns where
  metadata : MangaMetadata
  userState : UserState
  bindings : MangaBindings
  deriving DecidableEq, Repr

/-- The step at which a save fails, with the error of that step. -/
inductive SaveFailure
  | mangaDir (cause : String)
  | createDir (cause : String)
  | saveJSONAtomic (cause : String)

def SaveFailure.error (operation mangaID : String) : SaveFailure → String
  | .mangaDir cause => operation ++ " " ++ mangaID ++ ": " ++ cause
  | .createDir cause => operation ++ " " ++ mangaID ++ ": create dir: " ++ cause
  | .saveJSONAtomic cause => cause

inductive Response (Body : Type)
  | ok (body : Body)
  | error (status : Nat) (message : String)

def Response.isOk : Response Body → Bool
  | .ok _ => true
  | .error _ _ => false

def userStatuses : List String :=
  ["unread", "reading", "completed", "on_hold", "dropped", "plan_to_read"]

def isValidUserStatus (status : String) : Bool := userStatuses.contains status

section Handler

variable (toLower : String → String) (mangaID : String)

/-- A body that does not bind comes as the error of `Bind`. -/
def patchLibraryMetadata (concerns : Concerns) (bound : Except String MetadataPatch)
    (saving : Except SaveFailure Unit) : Response MangaMetadata × Concerns :=
  match bound, saving with
  | .error message, _ => (.error 400 message, concerns)
  | .ok _, .error failure => (.error 500 (failure.error "save metadata" mangaID), concerns)
  | .ok body, .ok () =>
      (.ok body.decoded, { concerns with metadata := body.decoded.saved toLower })

def patchLibraryUserState (concerns : Concerns) (bound : Except String UserStatePatch)
    (saving : Except SaveFailure Unit) (now : Time) : Response UserState × Concerns :=
  match bound with
  | .error message => (.error 400 message, concerns)
  | .ok body =>
      if body.decoded.status ≠ "" ∧ isValidUserStatus body.decoded.status = false then
        (.error 400 "invalid user_status", concerns)
      else
        match saving with
        | .error failure => (.error 500 (failure.error "save user state" mangaID), concerns)
        | .ok () => (.ok body.decoded, { concerns with userState := body.decoded.saved now })

/-- A request for one concern. -/
inductive ConcernPatch
  | metadata (bound : Except String MetadataPatch)
  | userState (bound : Except String UserStatePatch)

/-- Whether the request succeeds, and the concerns after it. -/
def patchConcern (concerns : Concerns) (saving : Except SaveFailure Unit) (now : Time) :
    ConcernPatch → Bool × Concerns
  | .metadata bound =>
      let (response, after) := patchLibraryMetadata toLower mangaID concerns bound saving
      (response.isOk, after)
  | .userState bound =>
      let (response, after) := patchLibraryUserState mangaID concerns bound saving now
      (response.isOk, after)

theorem patchConcern_failed {concerns : Concerns} {saving : Except SaveFailure Unit} {now : Time}
    {patch : ConcernPatch}
    (failed : (patchConcern toLower mangaID concerns saving now patch).1 = false) :
    (patchConcern toLower mangaID concerns saving now patch).2 = concerns := by
  cases patch with
  | metadata bound =>
      rcases bound with message | body <;> rcases saving with failure | _
      · rfl
      · rfl
      · rfl
      · simp [patchConcern, patchLibraryMetadata, Response.isOk] at failed
  | userState bound =>
      cases bound with
      | error message => rfl
      | ok body =>
          simp only [patchConcern, patchLibraryUserState] at failed ⊢
          split
          · rfl
          · rename_i valid
            rw [if_neg valid] at failed
            rcases saving with failure | _
            · rfl
            · simp [Response.isOk] at failed

end Handler

/-! ## Merge patches -/

/-- What a field is after a merge: the kept form of the value in the body, or what was
stored when the body leaves the field out. -/
def written (keep : α → β) (field : Option α) (stored : β) : β := (field.map keep).getD stored

/-- Two values that must be equal where the body leaves the field out. -/
def EqualWithout (field : Option α) (stored base : β) : Prop := field = none → stored = base

theorem written_eq_written_iff (keep : α → β) (field : Option α) (stored base : β) :
    written keep field stored = written keep field base ↔ EqualWithout field stored base := by
  cases field <;> simp [written, EqualWithout]

theorem written_id (field : Option α) (stored : α) :
    written id field stored = field.getD stored := by
  rw [written, Option.map_id, id_eq]

section Metadata

variable (toLower : String → String)

/-- The form in which `Normalize` keeps a list. -/
def keptList (items : List String) : Option (List String) :=
  deduplicateSlice toLower (some items)

/-- The stored metadata with the fields of the body written over it. -/
def MetadataPatch.merged (body : MetadataPatch) (stored : MangaMetadata) : MangaMetadata where
  title := written id body.title stored.title
  aliases := written (keptList toLower) body.aliases stored.aliases
  description := written id body.description stored.description
  authors := written (keptList toLower) body.authors stored.authors
  artists := written (keptList toLower) body.artists stored.artists
  tags := written (keptList toLower) body.tags stored.tags
  collections := written (keptList toLower) body.collections stored.collections
  publishers := written (keptList toLower) body.publishers stored.publishers
  releaseYear := written id body.releaseYear stored.releaseYear
  startDate := written id body.startDate stored.startDate
  endDate := written id body.endDate stored.endDate
  country := written id body.country stored.country
  contentRating := written id body.contentRating stored.contentRating
  coverURL := written id body.coverURL stored.coverURL
  externalLinks := written (fun links => omitEmpty (some links)) body.externalLinks
    stored.externalLinks

/-- Equality of all fields that the body leaves out. -/
def MetadataPatch.EqualOutside (body : MetadataPatch) (stored base : MangaMetadata) : Prop :=
  EqualWithout body.title stored.title base.title ∧
  EqualWithout body.aliases stored.aliases base.aliases ∧
  EqualWithout body.description stored.description base.description ∧
  EqualWithout body.authors stored.authors base.authors ∧
  EqualWithout body.artists stored.artists base.artists ∧
  EqualWithout body.tags stored.tags base.tags ∧
  EqualWithout body.collections stored.collections base.collections ∧
  EqualWithout body.publishers stored.publishers base.publishers ∧
  EqualWithout body.releaseYear stored.releaseYear base.releaseYear ∧
  EqualWithout body.startDate stored.startDate base.startDate ∧
  EqualWithout body.endDate stored.endDate base.endDate ∧
  EqualWithout body.country stored.country base.country ∧
  EqualWithout body.contentRating stored.contentRating base.contentRating ∧
  EqualWithout body.coverURL stored.coverURL base.coverURL ∧
  EqualWithout body.externalLinks stored.externalLinks base.externalLinks

theorem MetadataPatch.merged_eq_merged_iff (body : MetadataPatch) (stored base : MangaMetadata) :
    body.merged toLower stored = body.merged toLower base ↔ body.EqualOutside stored base := by
  simp only [MetadataPatch.merged, MangaMetadata.mk.injEq, written_eq_written_iff,
    MetadataPatch.EqualOutside]

/-- Decoding into a fresh struct and saving it merges the body into the zero value. -/
theorem MetadataPatch.decoded_saved (body : MetadataPatch) :
    body.decoded.saved toLower = body.merged toLower MangaMetadata.zero := by
  have lists : ∀ field : Option (List String),
      written (keptList toLower) field none = deduplicateSlice toLower field := by
    intro field
    cases field <;> rfl
  have links : ∀ field : Option (List ExternalLink),
      written (fun links => omitEmpty (some links)) field none = omitEmpty field := by
    intro field
    cases field <;> rfl
  simp only [MangaMetadata.saved, MetadataPatch.decoded, MetadataPatch.merged, MangaMetadata.zero,
    lists, links, written_id]

/-- A body with the whole document. -/
def MetadataPatch.whole (m : MangaMetadata) : MetadataPatch where
  title := some m.title
  aliases := m.aliases
  description := some m.description
  authors := m.authors
  artists := m.artists
  tags := m.tags
  collections := m.collections
  publishers := m.publishers
  releaseYear := some m.releaseYear
  startDate := some m.startDate
  endDate := some m.endDate
  country := some m.country
  contentRating := some m.contentRating
  coverURL := some m.coverURL
  externalLinks := m.externalLinks

end Metadata

/-- The stored user state with the fields of the body written over it. -/
def UserStatePatch.merged (body : UserStatePatch) (now : Time) (stored : UserState) :
    UserState where
  status := written trimSpace body.status stored.status
  rating := written id body.rating stored.rating
  favorite := written id body.favorite stored.favorite
  notes := written id body.notes stored.notes
  lastReadChapterID := written id body.lastReadChapterID stored.lastReadChapterID
  lastReadAt := written id body.lastReadAt stored.lastReadAt
  addedAt := written (fun addedAt => if addedAt.isZero then now else addedAt) body.addedAt
    stored.addedAt
  updatedAt := now

/-- Equality of all fields but `updated_at` that the body leaves out. -/
def UserStatePatch.EqualOutside (body : UserStatePatch) (stored base : UserState) : Prop :=
  EqualWithout body.status stored.status base.status ∧
  EqualWithout body.rating stored.rating base.rating ∧
  EqualWithout body.favorite stored.favorite base.favorite ∧
  EqualWithout body.notes stored.notes base.notes ∧
  EqualWithout body.lastReadChapterID stored.lastReadChapterID base.lastReadChapterID ∧
  EqualWithout body.lastReadAt stored.lastReadAt base.lastReadAt ∧
  EqualWithout body.addedAt stored.addedAt base.addedAt

theorem UserStatePatch.merged_eq_merged_iff (body : UserStatePatch) (now : Time)
    (stored base : UserState) :
    body.merged now stored = body.merged now base ↔ body.EqualOutside stored base := by
  simp only [UserStatePatch.merged, UserState.mk.injEq, written_eq_written_iff,
    UserStatePatch.EqualOutside, and_true]

/-- The user state of a manga that is added now. -/
def freshUserState (now : Time) : UserState := { UserState.zero with addedAt := now }

theorem UserStatePatch.decoded_saved (body : UserStatePatch) (now : Time) :
    body.decoded.saved now = body.merged now (freshUserState now) := by
  have status : written trimSpace body.status "" = trimSpace (body.status.getD "") := by
    cases body.status <;> rfl
  have addedAt : written (fun addedAt => if addedAt.isZero then now else addedAt) body.addedAt now =
      if (body.addedAt.getD Time.zero).isZero then now else body.addedAt.getD Time.zero := by
    cases body.addedAt <;> rfl
  simp only [UserState.saved, UserStatePatch.decoded, UserStatePatch.merged, freshUserState,
    UserState.zero, status, addedAt, written_id]
  rfl

/-! ## Requests for one concern -/

section Patch

variable (toLower : String → String) (mangaID : String)

/-- The concerns with exactly the fields of the body changed, and `updated_at`. -/
def ConcernPatch.merged (concerns : Concerns) (now : Time) : ConcernPatch → Concerns
  | .metadata (.ok body) =>
      { concerns with metadata := body.merged toLower concerns.metadata }
  | .userState (.ok body) =>
      { concerns with userState := body.merged now concerns.userState }
  | .metadata (.error _) | .userState (.error _) => concerns

/-- The fields that the body leaves out have what an absent field decodes to. -/
def ConcernPatch.OmitsOnlyZeros (concerns : Concerns) (now : Time) : ConcernPatch → Prop
  | .metadata (.ok body) => body.EqualOutside concerns.metadata MangaMetadata.zero
  | .userState (.ok body) => body.EqualOutside concerns.userState (freshUserState now)
  | .metadata (.error _) | .userState (.error _) => True

/-- A successful request is a merge patch exactly when every field left out of the body
was at its zero value, and `added_at` at the time of the request. -/
theorem patchConcern_merges_iff {concerns : Concerns} {saving : Except SaveFailure Unit}
    {now : Time} {patch : ConcernPatch}
    (succeeded : (patchConcern toLower mangaID concerns saving now patch).1 = true) :
    (patchConcern toLower mangaID concerns saving now patch).2 =
        patch.merged toLower concerns now ↔ patch.OmitsOnlyZeros concerns now := by
  cases patch with
  | metadata bound =>
      rcases bound with message | body
      · simp [patchConcern, patchLibraryMetadata, Response.isOk] at succeeded
      · rcases saving with failure | _
        · simp [patchConcern, patchLibraryMetadata, Response.isOk] at succeeded
        · have replaced := MetadataPatch.decoded_saved toLower body
          simp only [patchConcern, patchLibraryMetadata, ConcernPatch.merged,
            ConcernPatch.OmitsOnlyZeros, replaced, Concerns.mk.injEq, and_true]
          rw [eq_comm, MetadataPatch.merged_eq_merged_iff]
  | userState bound =>
      rcases bound with message | body
      · simp [patchConcern, patchLibraryUserState, Response.isOk] at succeeded
      · simp only [patchConcern, patchLibraryUserState] at succeeded ⊢
        split at succeeded
        · simp [Response.isOk] at succeeded
        · rename_i valid
          rcases saving with failure | _
          · simp [Response.isOk] at succeeded
          · rw [if_neg valid]
            have replaced := UserStatePatch.decoded_saved body now
            simp only [ConcernPatch.merged, ConcernPatch.OmitsOnlyZeros, replaced,
              Concerns.mk.injEq, and_true, true_and]
            rw [eq_comm, UserStatePatch.merged_eq_merged_iff]

/-- The user sets the title of a manga without metadata. -/
theorem patchConcern_merges_iff_first_title :
    let body : MetadataPatch :=
      { MetadataPatch.whole MangaMetadata.zero with title := some "Frieren" }
    let concerns : Concerns := ⟨MangaMetadata.zero, UserState.zero, ⟨[], none⟩⟩
    (patchConcern id "frieren" concerns (.ok ()) Time.zero (.metadata (.ok body))).2 =
      ConcernPatch.merged id concerns Time.zero (.metadata (.ok body)) :=
  (patchConcern_merges_iff id "frieren" rfl).mpr
    (by simp [ConcernPatch.OmitsOnlyZeros, MetadataPatch.EqualOutside, EqualWithout])

end Patch

/-! ## The import dialog -/

/-- White space and line terminators, which `trim` of the web client removes. -/
def isWhiteSpace (c : Char) : Bool :=
  c == ' ' || ('\t' ≤ c && c ≤ '\r') || c.toNat == 0xA0 || c.toNat == 0x1680 ||
    (0x2000 ≤ c.toNat && c.toNat ≤ 0x200A) || c.toNat == 0x2028 || c.toNat == 0x2029 ||
    c.toNat == 0x202F || c.toNat == 0x205F || c.toNat == 0x3000 || c.toNat == 0xFEFF

def trim (s : String) : String := String.ofList (trimChars isWhiteSpace s.toList)

inductive Choice
  | current
  | incoming
  deriving DecidableEq, Repr

inductive MultiChoice
  | current
  | incoming
  | merged
  deriving DecidableEq, Repr

structure MetadataValues where
  title : String
  coverUrl : String
  description : String
  authors : List String
  artists : List String
  publishers : List String
  releaseYear : Int
  startDate : String
  endDate : String
  contentRating : String
  country : String
  externalLinks : List ExternalLink

structure Selection where
  selectedTitle : Choice
  selectedCover : Choice
  selectedDescription : Choice
  selectedAuthorsMode : MultiChoice
  selectedArtistsMode : MultiChoice
  selectedPublishersMode : MultiChoice
  selectedExternalLinksMode : MultiChoice
  selectedTags : List String
  selectedAliases : List String
  selectedReleaseYear : Choice
  selectedStartDate : Choice
  selectedEndDate : Choice
  selectedContentRating : Choice
  selectedCountry : Choice

section Import

variable (toLowerCase : String → String)

def mergeStringArrays (arrays : List (List String)) : List String :=
  keepFirst trim toLowerCase [] arrays.flatten

/-- The loop of `mergeExternalLinkArrays`, with the URLs seen so far. -/
def mergeLinks (seen : List String) : List ExternalLink → List ExternalLink
  | [] => []
  | item :: items =>
      let url := trim item.url
      if url = "" ∨ toLowerCase url ∈ seen then mergeLinks seen items
      else
        { provider := if item.provider = "" then "custom" else item.provider
          label :=
            if item.label ≠ "" then item.label
            else if item.provider ≠ "" then item.provider else "Link"
          url } :: mergeLinks (toLowerCase url :: seen) items

def mergeExternalLinkArrays (arrays : List (List ExternalLink)) : List ExternalLink :=
  mergeLinks toLowerCase [] arrays.flatten

/-- A scalar is sent when the incoming one is chosen and not blank. -/
def chosen [DecidableEq α] (choice : Choice) (blank incoming : α) : Option α :=
  if choice = .incoming ∧ incoming ≠ blank then some incoming else none

def chosenList (merge : List (List α) → List α) (mode : MultiChoice)
    (current incoming : List α) : Option (List α) :=
  match mode with
  | .current => none
  | .incoming => some incoming
  | .merged => some (merge [current, incoming])

/-- The request that `useMetadataComparison` sends when the user confirms an import. -/
def fieldsToPatch (selection : Selection) (currentValues incomingValues : MetadataValues) :
    MetadataPatch where
  title :=
    if incomingValues.title = currentValues.title then none
    else chosen selection.selectedTitle "" incomingValues.title
  aliases := some selection.selectedAliases
  description := chosen selection.selectedDescription "" incomingValues.description
  authors := chosenList (mergeStringArrays toLowerCase) selection.selectedAuthorsMode
    currentValues.authors incomingValues.authors
  artists := chosenList (mergeStringArrays toLowerCase) selection.selectedArtistsMode
    currentValues.artists incomingValues.artists
  tags := some selection.selectedTags
  collections := none
  publishers := chosenList (mergeStringArrays toLowerCase) selection.selectedPublishersMode
    currentValues.publishers incomingValues.publishers
  releaseYear := chosen selection.selectedReleaseYear 0 incomingValues.releaseYear
  startDate := chosen selection.selectedStartDate "" incomingValues.startDate
  endDate := chosen selection.selectedEndDate "" incomingValues.endDate
  country := chosen selection.selectedCountry "" incomingValues.country
  contentRating := chosen selection.selectedContentRating "" incomingValues.contentRating
  coverURL := chosen selection.selectedCover "" incomingValues.coverUrl
  externalLinks := chosenList (mergeExternalLinkArrays toLowerCase)
    selection.selectedExternalLinksMode currentValues.externalLinks incomingValues.externalLinks

/-- `handleKeepCurrent`, for the tags and aliases that are stored. -/
def keepCurrent (tags aliases : List String) : Selection where
  selectedTitle := .current
  selectedCover := .current
  selectedDescription := .current
  selectedAuthorsMode := .current
  selectedArtistsMode := .current
  selectedPublishersMode := .current
  selectedExternalLinksMode := .current
  selectedTags := tags
  selectedAliases := aliases
  selectedReleaseYear := .current
  selectedStartDate := .current
  selectedEndDate := .current
  selectedContentRating := .current
  selectedCountry := .current

end Import

/-- Nothing comes in and everything current is to be kept. -/
theorem keepCurrent_wipes_title :
    ¬ ∀ (toLower toLowerCase : String → String) (mangaID : String) (concerns : Concerns)
        (saving : Except SaveFailure Unit) (now : Time) (selection : Selection)
        (currentValues incomingValues : MetadataValues),
      let patch := ConcernPatch.metadata
        (.ok (fieldsToPatch toLowerCase selection currentValues incomingValues))
      (patchConcern toLower mangaID concerns saving now patch).1 = true →
        (patchConcern toLower mangaID concerns saving now patch).2 =
          patch.merged toLower concerns now := by
  intro claimed
  have merged := claimed id id "frieren"
    ⟨{ MangaMetadata.zero with title := "Frieren" }, UserState.zero, ⟨[], none⟩⟩ (.ok ())
    Time.zero (keepCurrent [] [])
    ⟨"Frieren", "", "", [], [], [], 0, "", "", "", "", []⟩
    ⟨"Sousou no Frieren", "", "", [], [], [], 0, "", "", "", "", []⟩ rfl
  have title := congrArg (fun after => after.metadata.title) merged
  revert title
  decide

end Kiyomi.Api
