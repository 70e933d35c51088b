import Kiyomi.Go.Time
import Mathlib.Data.List.Nodup

namespace Kiyomi.Plugins.Mangadex

open Go

/-! # The chapter list of the MangaDex plugin -/

structure FeedEntry where
  id : String
  translatedLanguage : String
  chapter : String
  title : String
  publishAt : String
  deriving DecidableEq

/-- The path and the query of a request for a feed; the offset is not written where it is zero. -/
structure FeedRequest where
  mangaRef : String
  translatedLanguage : String
  orderChapter : String
  limit : Nat
  offset : Nat := 0
  deriving DecidableEq

inductive FeedReply
  | failed
  | status (code : Nat)
  | undecodable
  | feed (data : List FeedEntry)
  deriving DecidableEq

inductive FetchError
  | request
  | status (code : Nat)
  | decode
  deriving DecidableEq

structure Chapter where
  id : String
  name : String
  number : Rat
  url : String
  uploadDate : Time
  sourceOrder : Nat
  deriving DecidableEq

/-- What the plugin reads numbers and times with. -/
structure Readers where
  /-- `strconv.ParseFloat` for 32 bits, of what it returns beside its error. -/
  parseFloat : String → Rat
  /-- `time.Parse` of RFC 3339. -/
  parseTime : String → Option Time

def feedRequest (mangaRef : String) : FeedRequest where
  mangaRef := mangaRef
  translatedLanguage := "en"
  orderChapter := "asc"
  limit := 100

def chapterName (ch : FeedEntry) : String :=
  if ch.title ≠ "" then ch.title
  else if ch.chapter ≠ "" then "Chapter " ++ ch.chapter
  else "Oneshot"

def chapterOf (readers : Readers) (ch : FeedEntry) (idx : Nat) : Chapter where
  id := ch.id
  name := chapterName ch
  number := readers.parseFloat ch.chapter
  url := "https://mangadex.org/chapter/" ++ ch.id
  uploadDate := if ch.publishAt = "" then .zero else (readers.parseTime ch.publishAt).getD .zero
  sourceOrder := idx + 1

def fetchChapters (readers : Readers) (api : FeedRequest → FeedReply) (mangaRef : String) :
    Except FetchError (List Chapter) :=
  match api (feedRequest mangaRef) with
  | .failed => .error .request
  | .status code => .error (.status code)
  | .undecodable => .error .decode
  | .feed data => .ok (data.zipIdx.map fun entry => chapterOf readers entry.1 entry.2)

/-! ## The feed of a manga -/

/-- The entries that are asked for, of all that the API has. -/
def readable (feed : List FeedEntry) : List FeedEntry :=
  feed.filter fun entry => entry.translatedLanguage = "en"

/-- An API that returns, of the entries of a manga in one language, at most `limit` from
`offset` on. -/
def serve (feeds : String → List FeedEntry) (request : FeedRequest) : FeedReply :=
  let entries := (feeds request.mangaRef).filter fun entry =>
    entry.translatedLanguage = request.translatedLanguage
  .feed ((entries.drop request.offset).take request.limit)

variable {readers : Readers} {feeds : String → List FeedEntry} {mangaRef : String}

/-- Each readable chapter is listed as often as the feed has it. -/
def Complete (feed : List FeedEntry) (chapters : List Chapter) : Prop :=
  ∀ entry ∈ readable feed,
    (chapters.map Chapter.id).count entry.id = ((readable feed).map FeedEntry.id).count entry.id

theorem id_chapters (data : List FeedEntry) :
    (data.zipIdx.map fun entry => chapterOf readers entry.1 entry.2).map Chapter.id =
      data.map FeedEntry.id := by
  rw [List.map_map]
  conv_rhs => rw [← List.zipIdx_map_fst 0 data, List.map_map]
  rfl

theorem fetchChapters_serve : fetchChapters readers (serve feeds) mangaRef =
    .ok (((readable (feeds mangaRef)).take 100).zipIdx.map fun entry =>
      chapterOf readers entry.1 entry.2) := rfl

/-- An element that is cut off is counted less often. -/
theorem count_take_lt {ids : List String} {n : Nat} (inside : n < ids.length) :
    (ids.take n).count ids[n] < ids.count ids[n] := by
  have missed : ids[n] ∈ ids.drop n := by
    rw [List.drop_eq_getElem_cons inside]
    exact List.mem_cons_self
  have split : ids.count ids[n] = (ids.take n).count ids[n] + (ids.drop n).count ids[n] := by
    rw [← List.count_append, List.take_append_drop]
  have positive := List.count_pos_iff.mpr missed
  omega

/-- Of a longer list some chapter is not returned. -/
theorem length_of_complete {chapters : List Chapter}
    (isResult : fetchChapters readers (serve feeds) mangaRef = .ok chapters)
    (complete : Complete (feeds mangaRef) chapters) : (readable (feeds mangaRef)).length ≤ 100 := by
  rw [fetchChapters_serve] at isResult
  cases isResult
  by_contra many
  have inside : 100 < (readable (feeds mangaRef)).length := Nat.not_le.mp many
  have counted := complete _ (List.getElem_mem inside)
  have less := @count_take_lt ((readable (feeds mangaRef)).map FeedEntry.id) 100
    (by rwa [List.length_map])
  rw [List.getElem_map, ← List.map_take] at less
  rw [id_chapters] at counted
  omega

/-- A list is complete exactly where one request returns all of it. -/
theorem complete_fetchChapters_iff :
    (∃ chapters, fetchChapters readers (serve feeds) mangaRef = .ok chapters ∧
        Complete (feeds mangaRef) chapters) ↔
      (readable (feeds mangaRef)).length ≤ 100 := by
  constructor
  · rintro ⟨chapters, isResult, complete⟩
    exact length_of_complete isResult complete
  · intro few
    refine ⟨_, fetchChapters_serve, fun entry _ => ?_⟩
    rw [id_chapters, List.take_of_length_le few]

/-- A feed of this many chapters, all in English. -/
def numberedFeed (total : Nat) : List FeedEntry :=
  (List.range total).map fun n =>
    { id := toString n, translatedLanguage := "en", chapter := toString (n + 1), title := "",
      publishAt := "" }

theorem readable_numberedFeed (total : Nat) : readable (numberedFeed total) = numberedFeed total :=
  List.filter_eq_self.mpr fun entry member => by
    rcases List.mem_map.mp member with ⟨n, _, rfl⟩
    rfl

/-- The chapters behind the first hundred are not asked for. -/
theorem long_feed_is_cut : ¬∀ (readers : Readers) (feeds : String → List FeedEntry)
    (mangaRef : String), ∃ chapters, fetchChapters readers (serve feeds) mangaRef = .ok chapters ∧
      Complete (feeds mangaRef) chapters := by
  intro all
  rcases all ⟨fun _ => 0, fun _ => none⟩ (fun _ => numberedFeed 101) "manga" with
    ⟨chapters, isResult, complete⟩
  have few := length_of_complete isResult complete
  rw [readable_numberedFeed, numberedFeed, List.length_map, List.length_range] at few
  contradiction

end Kiyomi.Plugins.Mangadex
