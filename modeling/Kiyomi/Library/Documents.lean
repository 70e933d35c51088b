import Kiyomi.Foundation.Unions
import Kiyomi.Go.Strings
import Kiyomi.Go.Time

namespace Kiyomi.Library

open Go

/-! # The documents of a library

The contents of `metadata.json`, `user_state.json`, `bindings.json` and of the
`meta.json` of a chapter. A nil slice and an empty one are told apart where the code
can write either. A file that does not exist reads as the zero value. -/

structure ProviderRef where
  providerID : String
  providerMangaID : String
  mangaTitle : String
  deriving DecidableEq, Repr

structure ContentSource where
  providerID : String
  providerMangaID : String
  chapterRef : String
  readingMode : String
  lastSyncedAt : Time
  deriving DecidableEq, Repr

/-- `&ContentSource{}`. -/
def ContentSource.zero : ContentSource := ⟨"", "", "", "", Time.zero⟩

structure MangaBindings where
  providers : List ProviderRef
  content : Option ContentSource
  deriving DecidableEq, Repr

structure ExternalLink where
  provider : String
  label : String
  url : String
  deriving DecidableEq, Repr

structure MangaMetadata where
  title : String
  aliases : Option (List String)
  description : String
  authors : Option (List String)
  artists : Option (List String)
  tags : Option (List String)
  collections : Option (List String)
  publishers : Option (List String)
  releaseYear : Int
  startDate : String
  endDate : String
  country : String
  contentRating : String
  coverURL : String
  externalLinks : Option (List ExternalLink)
  deriving DecidableEq, Repr

/-- `MangaMetadata{}`. -/
def MangaMetadata.zero : MangaMetadata where
  title := ""
  aliases := none
  description := ""
  authors := none
  artists := none
  tags := none
  collections := none
  publishers := none
  releaseYear := 0
  startDate := ""
  endDate := ""
  country := ""
  contentRating := ""
  coverURL := ""
  externalLinks := none

structure UserState where
  status : String
  rating : Rat
  favorite : Bool
  notes : String
  lastReadChapterID : String
  lastReadAt : Time
  addedAt : Time
  updatedAt : Time
  deriving DecidableEq, Repr

/-- `UserState{}`. -/
def UserState.zero : UserState := ⟨"", 0, false, "", "", Time.zero, Time.zero, Time.zero⟩

structure ChapterMeta where
  title : String
  number : Rat
  volume : Int
  language : String
  uploadDate : Time
  sourceOrder : Int
  content : Option ContentSource
  pageCount : Int
  pageFormat : String
  downloadedAt : Time
  downloadedPages : Int
  isDownloaded : Bool
  orphaned : Bool
  isRead : Bool
  lastReadPage : Int
  lastReadAt : Time
  deriving DecidableEq, Repr

/-- `ChapterMeta{}`. -/
def ChapterMeta.zero : ChapterMeta where
  title := ""
  number := 0
  volume := 0
  language := ""
  uploadDate := Time.zero
  sourceOrder := 0
  content := none
  pageCount := 0
  pageFormat := ""
  downloadedAt := Time.zero
  downloadedPages := 0
  isDownloaded := false
  orphaned := false
  isRead := false
  lastReadPage := 0
  lastReadAt := Time.zero

/-- `sdk.Chapter`. -/
structure Chapter where
  id : String
  name : String
  number : Rat
  uploadDate : Time
  sourceOrder : Int
  deriving DecidableEq, Repr

namespace ChapterMeta

/-- What `getChapter` returns for a stored manifest and the page images found. -/
def read (stored : ChapterMeta) (pageFiles : Nat) : ChapterMeta :=
  { stored with
    downloadedPages := pageFiles
    isDownloaded := decide (pageFiles > 0) &&
      (stored.pageCount == 0 || decide ((pageFiles : Int) ≥ stored.pageCount)) }

/-- The manifest that `saveChapter` writes. -/
def saved (chMeta : ChapterMeta) : ChapterMeta :=
  { chMeta with
    content := chMeta.content.map fun content =>
      if content.providerID = "" then { content with providerID := "local" } else content }

end ChapterMeta

/-- The loop of `deduplicateSlice`, with the lower-case entries seen so far. -/
def keepFirst (trim lower : String → String) (seen : List String) : List String → List String
  | [] => []
  | item :: items =>
      let trimmed := trim item
      if trimmed = "" ∨ lower trimmed ∈ seen then keepFirst trim lower seen items
      else trimmed :: keepFirst trim lower (lower trimmed :: seen) items

/-- Entries that are trimmed, not blank and new are kept as they are. -/
theorem keepFirst_keepFirst {trim : String → String} (lower : String → String)
    (trimmed : ∀ item, trim (trim item) = trim item) (items seen : List String) :
    keepFirst trim lower seen (keepFirst trim lower seen items) =
      keepFirst trim lower seen items := by
  induction items generalizing seen with
  | nil => rfl
  | cons item items induction =>
      rw [keepFirst]
      split
      · exact induction seen
      · rename_i kept
        rw [keepFirst, trimmed, if_neg kept, induction]

theorem keepFirst_eq_unseen {trim lower : String → String} (seen items : List String) :
    keepFirst trim lower seen items = unseen lower seen ((items.map trim).filter (· ≠ "")) := by
  induction items generalizing seen with
  | nil => rfl
  | cons item items induction =>
      rw [keepFirst, List.map_cons]
      by_cases blank : trim item = ""
      · rw [if_pos (.inl blank), List.filter_cons_of_neg (by simp [blank]), induction]
      · rw [List.filter_cons_of_pos (by simpa using blank), unseen, induction, induction]
        simp only [blank, false_or]

section Normalize

/-! `strings.ToLower` goes by the Unicode tables of the Go version. -/

variable (toLower : String → String)

def deduplicateSlice (items : Option (List String)) : Option (List String) :=
  items.map (keepFirst trimSpace toLower [])

theorem deduplicateSlice_deduplicateSlice (items : Option (List String)) :
    deduplicateSlice toLower (deduplicateSlice toLower items) = deduplicateSlice toLower items := by
  cases items with
  | none => rfl
  | some items =>
      exact congrArg some (keepFirst_keepFirst toLower trimSpace_trimSpace items [])

/-- A field with `omitempty`, read back. -/
def omitEmpty : Option (List α) → Option (List α)
  | some [] => none
  | items => items

theorem omitEmpty_omitEmpty (items : Option (List α)) :
    omitEmpty (omitEmpty items) = omitEmpty items := by
  rcases items with _ | _ | _ <;> rfl

/-- What `SaveMetadata` leaves in `metadata.json`. -/
def MangaMetadata.saved (m : MangaMetadata) : MangaMetadata :=
  { m with
    aliases := deduplicateSlice toLower m.aliases
    authors := deduplicateSlice toLower m.authors
    artists := deduplicateSlice toLower m.artists
    tags := deduplicateSlice toLower m.tags
    collections := deduplicateSlice toLower m.collections
    publishers := deduplicateSlice toLower m.publishers
    externalLinks := omitEmpty m.externalLinks }

theorem MangaMetadata.saved_saved (m : MangaMetadata) :
    (m.saved toLower).saved toLower = m.saved toLower := by
  simp only [MangaMetadata.saved, deduplicateSlice_deduplicateSlice, omitEmpty_omitEmpty]

end Normalize

/-- The normalisation and the stamps of `saveUserStateLocked`. -/
def UserState.saved (u : UserState) (now : Time) : UserState :=
  { u with
    status := trimSpace u.status
    addedAt := if u.addedAt.isZero then now else u.addedAt
    updatedAt := now }

end Kiyomi.Library
