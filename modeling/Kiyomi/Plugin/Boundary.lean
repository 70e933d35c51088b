import Kiyomi.Plugin.Host.Adapter

namespace Kiyomi.Plugin

open Go

/-! # What crosses the plugin boundary

The providers are arbitrary functions of their arguments, so equal answers through the
adapter mean that the arguments arrive. -/

/-- An `int` that survives the conversion to `int32`. -/
def FitsInt32 (n : Int) : Prop := Int32.minValue.toInt ≤ n ∧ n ≤ Int32.maxValue.toInt

instance : DecidablePred FitsInt32 := fun n =>
  inferInstanceAs (Decidable (Int32.minValue.toInt ≤ n ∧ n ≤ Int32.maxValue.toInt))

def WholeSecond (instant : Int) : Prop := instant % 1000000000 = 0

theorem toInt_ofInt {n : Int} (fits : FitsInt32 n) : (Int32.ofInt n).toInt = n :=
  Int32.toInt_ofInt_of_le fits.1 (Int.lt_add_one_of_le fits.2)

theorem ofUnix_unix {instant : Int} (whole : WholeSecond instant) :
    ofUnix (unix instant) = instant :=
  Int.ediv_mul_cancel (Int.dvd_of_emod_eq_zero whole)

structure SearchOptions.InRange (opts : SearchOptions) : Prop where
  limit : FitsInt32 opts.limit
  offset : FitsInt32 opts.offset

structure MangaMetadata.InRange (m : MangaMetadata) : Prop where
  totalChapters : FitsInt32 m.totalChapters
  releaseYear : FitsInt32 m.releaseYear

structure Sdk.ImageRef.InRange (img : Sdk.ImageRef) : Prop where
  width : FitsInt32 img.width
  height : FitsInt32 img.height

structure Chapter.InRange (ch : Chapter) : Prop where
  uploadDate : WholeSecond ch.uploadDate
  sourceOrder : FitsInt32 ch.sourceOrder

structure Progress.InRange (prog : Progress) : Prop where
  score : FitsInt32 prog.score
  progress : FitsInt32 prog.progress

/-! ## Values there and back -/

/-- An image as the host has it: nothing is known of its headers. -/
def Host.ImageRef.asSdk (img : Host.ImageRef) : Sdk.ImageRef where
  url := img.url
  width := img.width
  height := img.height
  mimeType := img.mimeType
  headers := ∅

/-- A page as the host has it: nothing is known of its headers. -/
def Host.Page.asSdk (pg : Host.Page) : Sdk.Page where
  index := pg.index
  url := pg.url
  headers := ∅

def Sdk.ImageRef.withoutHeaders (img : Sdk.ImageRef) : Sdk.ImageRef := { img with headers := ∅ }

def Sdk.Page.withoutHeaders (pg : Sdk.Page) : Sdk.Page := { pg with headers := ∅ }

theorem Sdk.ImageRef.withoutHeaders_eq_self {img : Sdk.ImageRef} :
    img.withoutHeaders = img ↔ img.headers = ∅ := by
  cases img
  simp [withoutHeaders, eq_comm]

theorem Sdk.Page.withoutHeaders_eq_self {pg : Sdk.Page} :
    pg.withoutHeaders = pg ↔ pg.headers = ∅ := by
  cases pg
  simp [withoutHeaders, eq_comm]

open Host (GRPCProviderAdapter)

theorem searchResult_searchResult (r : SearchResult) :
    GRPCProviderAdapter.searchResult (GRPCMetadataProviderServer.searchResult r) = r := rfl

theorem mangaMetadata_mangaMetadata {m : MangaMetadata} (range : m.InRange) :
    GRPCProviderAdapter.mangaMetadata (GRPCMetadataProviderServer.mangaMetadata m) = m := by
  simp only [GRPCProviderAdapter.mangaMetadata, GRPCMetadataProviderServer.mangaMetadata,
    toInt_ofInt range.totalChapters, toInt_ofInt range.releaseYear]

theorem imageRef_imageRef {img : Sdk.ImageRef} (range : img.InRange) :
    (GRPCProviderAdapter.imageRef (GRPCMetadataProviderServer.imageRef img)).asSdk =
      img.withoutHeaders := by
  simp only [GRPCProviderAdapter.imageRef, GRPCMetadataProviderServer.imageRef,
    Host.ImageRef.asSdk, Sdk.ImageRef.withoutHeaders, toInt_ofInt range.width,
    toInt_ofInt range.height]

theorem chapter_chapter {ch : Chapter} (range : ch.InRange) :
    GRPCProviderAdapter.chapter (GRPCContentProviderServer.chapter ch) = ch := by
  simp only [GRPCProviderAdapter.chapter, GRPCContentProviderServer.chapter,
    ofUnix_unix range.uploadDate, toInt_ofInt range.sourceOrder]

theorem page_page {pg : Sdk.Page} (range : FitsInt32 pg.index) :
    (GRPCProviderAdapter.page (GRPCContentProviderServer.page pg)).asSdk = pg.withoutHeaders := by
  simp only [GRPCProviderAdapter.page, GRPCContentProviderServer.page, Host.Page.asSdk,
    Sdk.Page.withoutHeaders, toInt_ofInt range]

/-- The page that reaches the plugin when the host asks for the stream of a page of its own. -/
def pageAtPlugin (a : GRPCProviderAdapter) (pg : Host.Page) : Sdk.Page :=
  GRPCContentProviderServer.requestedPage (a.fetchPageStreamRequest pg)

theorem pageAtPlugin_eq (a : GRPCProviderAdapter) {pg : Host.Page} (range : FitsInt32 pg.index) :
    pageAtPlugin a pg = pg.asSdk := by
  simp only [pageAtPlugin, GRPCContentProviderServer.requestedPage,
    GRPCProviderAdapter.fetchPageStreamRequest, Option.getD_some, Host.Page.asSdk,
    toInt_ofInt range]

theorem pageAtPlugin_page (a : GRPCProviderAdapter) {pg : Sdk.Page} (range : FitsInt32 pg.index) :
    pageAtPlugin a (GRPCProviderAdapter.page (GRPCContentProviderServer.page pg)) =
      pg.withoutHeaders := by
  have host_range : FitsInt32
      (GRPCProviderAdapter.page (GRPCContentProviderServer.page pg)).index := by
    change FitsInt32 (Int32.ofInt pg.index).toInt
    rwa [toInt_ofInt range]
  rw [pageAtPlugin_eq a host_range, page_page range]

/-! ## The boundary as a whole -/

/-- What the providers return fits into the messages. -/
structure InRange (m : MetadataProvider) (c : ContentProvider) (t : Tracker) : Prop where
  details : ∀ remoteID, ∀ metadata ∈ m.details remoteID, metadata.InRange
  cover : ∀ remoteID size, ∀ img ∈ m.cover remoteID size, img.InRange
  chapters : ∀ mangaRef, ∀ chapters ∈ c.fetchChapters mangaRef, ∀ ch ∈ chapters, ch.InRange
  pages : ∀ mangaRef chapterRef, ∀ pages ∈ c.fetchPages mangaRef chapterRef, ∀ pg ∈ pages,
    FitsInt32 pg.index
  session : ∀ creds, ∀ sess ∈ t.authenticate creds, WholeSecond sess.expiresAt
  progress : ∀ remoteID, ∀ prog ∈ t.fetchProgress remoteID, prog.InRange

/-- The adapter's clients reach these providers. -/
structure Serves (a : GRPCProviderAdapter) (m : MetadataProvider) (c : ContentProvider)
    (t : Tracker) : Prop where
  metadata : ∃ server, a.metaClient = some server ∧ server.getProvider a.providerID = some m
  content : ∃ server, a.contentClient = some server ∧ server.getProvider a.providerID = some c
  tracker : ∃ server, a.trackClient = some server ∧ server.getProvider a.providerID = some t

/-- A reader of the host yields what a call of the plugin's provider yields: the same bytes in
the same order, and an error where the call or its reader fails. -/
structure SameStream (r : Host.AdapterStreamReader) (rc : Option Reader) : Prop where
  content : r.content = rc.elim [] fun rc => rc.reads.flatten
  fails : r.fails = rc.elim true fun rc => rc.fails

/-- Every argument arrives, and every field of every answer. -/
structure Lossless (a : GRPCProviderAdapter) (m : MetadataProvider) (c : ContentProvider)
    (t : Tracker) : Prop where
  search : ∀ query opts, opts.InRange → a.search query opts = m.search query opts
  details : ∀ remoteID, a.details remoteID = m.details remoteID
  cover : ∀ remoteID size,
    (a.cover remoteID size).map Host.ImageRef.asSdk = m.cover remoteID size
  aliases : ∀ remoteID, a.aliases remoteID = m.aliases remoteID
  hasStableChapterID : a.hasStableChapterID = c.hasStableChapterID
  fetchChapters : ∀ mangaRef, a.fetchChapters mangaRef = c.fetchChapters mangaRef
  fetchPages : ∀ mangaRef chapterRef,
    (a.fetchPages mangaRef chapterRef).map (·.map Host.Page.asSdk) =
      c.fetchPages mangaRef chapterRef
  /-- The pages that were fetched reach the plugin again as they were produced. -/
  passedBack : ∀ mangaRef chapterRef,
    (a.fetchPages mangaRef chapterRef).map (·.map (pageAtPlugin a)) =
      c.fetchPages mangaRef chapterRef
  fetchPageStream : ∀ pg, FitsInt32 pg.index → ∃ r, a.fetchPageStream pg = some r ∧
    SameStream r (c.fetchPageStream pg.asSdk)
  rateLimit : a.currentRateLimit = c.rateLimit
  authenticate : ∀ creds, a.authenticate creds = t.authenticate creds
  pushProgress : ∀ remoteID n, FitsInt32 n → a.pushProgress remoteID n = t.pushProgress remoteID n
  fetchProgress : ∀ remoteID, a.fetchProgress remoteID = t.fetchProgress remoteID
  isAuthenticated : a.isAuthenticated = t.isAuthenticated

/-- The plugin's images and pages carry no request headers. -/
structure HeaderFree (m : MetadataProvider) (c : ContentProvider) : Prop where
  cover : ∀ remoteID size, ∀ img ∈ m.cover remoteID size, img.headers = ∅
  pages : ∀ mangaRef chapterRef, ∀ pages ∈ c.fetchPages mangaRef chapterRef, ∀ pg ∈ pages,
    pg.headers = ∅

section Calls

variable {a : GRPCProviderAdapter} {m : MetadataProvider} {c : ContentProvider} {t : Tracker}

theorem search_eq (serves : Serves a m c t) (query : String) {opts : SearchOptions}
    (range : opts.InRange) : a.search query opts = m.search query opts := by
  rcases serves.metadata with ⟨server, client, found⟩
  have arguments : (⟨(Int32.ofInt opts.limit).toInt, (Int32.ofInt opts.offset).toInt,
      opts.mode⟩ : SearchOptions) = opts := by
    rw [toInt_ofInt range.limit, toInt_ofInt range.offset]
  simp only [GRPCProviderAdapter.search, client, GRPCMetadataProviderServer.search, found,
    Option.bind_eq_bind, Option.bind_some, arguments]
  cases m.search query opts with
  | none => rfl
  | some results =>
      simp [Function.comp_def, searchResult_searchResult]

theorem details_eq (serves : Serves a m c t) (range : InRange m c t) (remoteID : String) :
    a.details remoteID = m.details remoteID := by
  rcases serves.metadata with ⟨server, client, found⟩
  have answers := range.details remoteID
  simp only [GRPCProviderAdapter.details, client, GRPCMetadataProviderServer.details, found,
    Option.bind_eq_bind, Option.bind_some]
  cases answer : m.details remoteID with
  | none => rfl
  | some metadata =>
      exact congrArg some (mangaMetadata_mangaMetadata (answers metadata answer))

/-- A cover arrives without its headers. -/
theorem cover_eq (serves : Serves a m c t) (range : InRange m c t) (remoteID size : String) :
    (a.cover remoteID size).map Host.ImageRef.asSdk =
      (m.cover remoteID size).map Sdk.ImageRef.withoutHeaders := by
  rcases serves.metadata with ⟨server, client, found⟩
  have answers := range.cover remoteID size
  simp only [GRPCProviderAdapter.cover, client, GRPCMetadataProviderServer.cover, found,
    Option.bind_eq_bind, Option.bind_some]
  cases answer : m.cover remoteID size with
  | none => rfl
  | some img => exact congrArg some (imageRef_imageRef (answers img answer))

theorem aliases_eq (serves : Serves a m c t) (remoteID : String) :
    a.aliases remoteID = m.aliases remoteID := by
  rcases serves.metadata with ⟨server, client, found⟩
  simp only [GRPCProviderAdapter.aliases, client, GRPCMetadataProviderServer.aliases, found,
    Option.bind_eq_bind, Option.bind_some]

theorem hasStableChapterID_eq (serves : Serves a m c t) :
    a.hasStableChapterID = c.hasStableChapterID := by
  rcases serves.content with ⟨server, client, found⟩
  simp only [GRPCProviderAdapter.hasStableChapterID, client,
    GRPCContentProviderServer.hasStableChapterID, found]
  rfl

theorem fetchChapters_eq (serves : Serves a m c t) (range : InRange m c t) (mangaRef : String) :
    a.fetchChapters mangaRef = c.fetchChapters mangaRef := by
  rcases serves.content with ⟨server, client, found⟩
  have answers := range.chapters mangaRef
  simp only [GRPCProviderAdapter.fetchChapters, client, GRPCContentProviderServer.fetchChapters,
    found, Option.bind_eq_bind, Option.bind_some]
  cases answer : c.fetchChapters mangaRef with
  | none => rfl
  | some chapters =>
      have each : ∀ ch ∈ chapters,
          GRPCProviderAdapter.chapter (GRPCContentProviderServer.chapter ch) = ch :=
        fun ch member => chapter_chapter (answers chapters answer ch member)
      simpa [Function.comp_def] using List.map_congr_left each

theorem fetchPages_answer (serves : Serves a m c t) (mangaRef chapterRef : String) :
    a.fetchPages mangaRef chapterRef = (c.fetchPages mangaRef chapterRef).map
      (·.map fun pg => GRPCProviderAdapter.page (GRPCContentProviderServer.page pg)) := by
  rcases serves.content with ⟨server, client, found⟩
  simp only [GRPCProviderAdapter.fetchPages, client, GRPCContentProviderServer.fetchPages,
    found, Option.bind_eq_bind, Option.bind_some]
  cases c.fetchPages mangaRef chapterRef with
  | none => rfl
  | some pages => simp

/-- A function of the fetched pages that undoes their conversions but for the headers. -/
theorem map_fetchPages (serves : Serves a m c t) (range : InRange m c t)
    {back : Host.Page → Sdk.Page} (undoes : ∀ pg : Sdk.Page, FitsInt32 pg.index →
      back (GRPCProviderAdapter.page (GRPCContentProviderServer.page pg)) = pg.withoutHeaders)
    (mangaRef chapterRef : String) :
    (a.fetchPages mangaRef chapterRef).map (·.map back) =
      (c.fetchPages mangaRef chapterRef).map (·.map Sdk.Page.withoutHeaders) := by
  have answers := range.pages mangaRef chapterRef
  rw [fetchPages_answer serves]
  cases answer : c.fetchPages mangaRef chapterRef with
  | none => rfl
  | some pages =>
      have each : ∀ pg ∈ pages,
          back (GRPCProviderAdapter.page (GRPCContentProviderServer.page pg)) =
            pg.withoutHeaders :=
        fun pg member => undoes pg (answers pages answer pg member)
      simpa [Function.comp_def] using each

theorem fetchPageStream_same (serves : Serves a m c t) {pg : Host.Page}
    (range : FitsInt32 pg.index) :
    ∃ r, a.fetchPageStream pg = some r ∧ SameStream r (c.fetchPageStream pg.asSdk) := by
  rcases serves.content with ⟨server, client, found⟩
  have arguments := pageAtPlugin_eq a range
  have provider : server.getProvider (a.fetchPageStreamRequest pg).providerId = some c := found
  unfold pageAtPlugin at arguments
  simp only [GRPCProviderAdapter.fetchPageStream, client,
    GRPCContentProviderServer.fetchPageStream, provider, Option.bind_eq_bind, Option.bind_some,
    arguments]
  refine ⟨_, rfl, ?_⟩
  cases c.fetchPageStream pg.asSdk with
  | none => exact ⟨rfl, rfl⟩
  | some rc =>
      have sent : (rc.reads.filter (· ≠ [])).flatten = rc.reads.flatten :=
        List.flatten_filter_ne_nil
      exact ⟨sent, rfl⟩

theorem currentRateLimit_eq (serves : Serves a m c t) : a.currentRateLimit = c.rateLimit := by
  rcases serves.content with ⟨server, client, found⟩
  simp only [GRPCProviderAdapter.currentRateLimit, client, GRPCContentProviderServer.rateLimit,
    found]
  rfl

theorem authenticate_eq (serves : Serves a m c t) (range : InRange m c t)
    (creds : UserCredentials) : a.authenticate creds = t.authenticate creds := by
  rcases serves.tracker with ⟨server, client, found⟩
  have answers := range.session creds
  simp only [GRPCProviderAdapter.authenticate, client, GRPCTrackerServer.authenticate, found,
    Option.bind_eq_bind, Option.bind_some, Option.getD_some]
  cases answer : t.authenticate creds with
  | none => rfl
  | some sess => simp [ofUnix_unix (answers sess answer)]

theorem pushProgress_eq (serves : Serves a m c t) (remoteID : String) {n : Int}
    (range : FitsInt32 n) : a.pushProgress remoteID n = t.pushProgress remoteID n := by
  rcases serves.tracker with ⟨server, client, found⟩
  simp only [GRPCProviderAdapter.pushProgress, client, GRPCTrackerServer.pushProgress, found,
    Option.bind_eq_bind, Option.bind_some, toInt_ofInt range]
  cases t.pushProgress remoteID n <;> rfl

theorem fetchProgress_eq (serves : Serves a m c t) (range : InRange m c t) (remoteID : String) :
    a.fetchProgress remoteID = t.fetchProgress remoteID := by
  rcases serves.tracker with ⟨server, client, found⟩
  have answers := range.progress remoteID
  simp only [GRPCProviderAdapter.fetchProgress, client, GRPCTrackerServer.fetchProgress, found,
    Option.bind_eq_bind, Option.bind_some]
  cases answer : t.fetchProgress remoteID with
  | none => rfl
  | some prog =>
      have prog_range := answers prog answer
      simp [-Int32.toInt_ofInt, toInt_ofInt prog_range.score, toInt_ofInt prog_range.progress]

theorem isAuthenticated_eq (serves : Serves a m c t) : a.isAuthenticated = t.isAuthenticated := by
  rcases serves.tracker with ⟨server, client, found⟩
  simp only [GRPCProviderAdapter.isAuthenticated, client, GRPCTrackerServer.isAuthenticated,
    found]
  rfl

end Calls

/-! ## Headers -/

theorem map_withoutHeaders_images {img : Option Sdk.ImageRef} :
    img.map Sdk.ImageRef.withoutHeaders = img ↔ ∀ i ∈ img, i.headers = ∅ := by
  cases img with
  | none => simp
  | some i => simp [Sdk.ImageRef.withoutHeaders_eq_self]

theorem map_withoutHeaders_pages {pages : Option (List Sdk.Page)} :
    pages.map (·.map Sdk.Page.withoutHeaders) = pages ↔
      ∀ ps ∈ pages, ∀ pg ∈ ps, pg.headers = ∅ := by
  cases pages with
  | none => simp
  | some ps =>
      have each : ps.map Sdk.Page.withoutHeaders = ps ↔ ∀ pg ∈ ps, pg.headers = ∅ := by
        induction ps with
        | nil => simp
        | cons pg ps induction => simp [Sdk.Page.withoutHeaders_eq_self, induction]
      simpa using each

/-- An adapter whose clients reach exactly these providers. -/
def adapterOf (providerID : String) (rateLimit : RateLimitHint) (m : MetadataProvider)
    (c : ContentProvider) (t : Tracker) : GRPCProviderAdapter where
  providerID
  rateLimit
  metaClient := some { providers := AList.insert providerID m ∅ }
  contentClient := some { providers := AList.insert providerID c ∅ }
  trackClient := some { providers := AList.insert providerID t ∅ }

theorem adapterOf_serves (providerID : String) (rateLimit : RateLimitHint)
    (m : MetadataProvider) (c : ContentProvider) (t : Tracker) :
    Serves (adapterOf providerID rateLimit m c t) m c t where
  metadata := ⟨_, rfl, AList.lookup_insert _⟩
  content := ⟨_, rfl, AList.lookup_insert _⟩
  tracker := ⟨_, rfl, AList.lookup_insert _⟩

theorem lossless_iff (a : GRPCProviderAdapter) (m : MetadataProvider) (c : ContentProvider)
    (t : Tracker) (serves : Serves a m c t) (range : InRange m c t) :
    Lossless a m c t ↔ HeaderFree m c := by
  constructor
  · intro lossless
    refine ⟨fun remoteID size => ?_, fun mangaRef chapterRef => ?_⟩
    · apply map_withoutHeaders_images.1
      rw [← cover_eq serves range, lossless.cover]
    · apply map_withoutHeaders_pages.1
      rw [← map_fetchPages serves range fun _ => page_page, lossless.fetchPages]
  · intro free
    have pages_kept : ∀ mangaRef chapterRef,
        (c.fetchPages mangaRef chapterRef).map (·.map Sdk.Page.withoutHeaders) =
          c.fetchPages mangaRef chapterRef :=
      fun mangaRef chapterRef => map_withoutHeaders_pages.2 (free.pages mangaRef chapterRef)
    exact
      { search := fun query _ => search_eq serves query
        details := details_eq serves range
        cover := fun remoteID size => by
          rw [cover_eq serves range, map_withoutHeaders_images.2 (free.cover remoteID size)]
        aliases := aliases_eq serves
        hasStableChapterID := hasStableChapterID_eq serves
        fetchChapters := fetchChapters_eq serves range
        fetchPages := fun mangaRef chapterRef => by
          rw [map_fetchPages serves range fun _ => page_page, pages_kept]
        passedBack := fun mangaRef chapterRef => by
          rw [map_fetchPages serves range fun _ => pageAtPlugin_page a, pages_kept]
        fetchPageStream := fun _ => fetchPageStream_same serves
        rateLimit := currentRateLimit_eq serves
        authenticate := authenticate_eq serves range
        pushProgress := fun remoteID _ => pushProgress_eq serves remoteID
        fetchProgress := fetchProgress_eq serves range
        isAuthenticated := isAuthenticated_eq serves }

section Hotlink

def unknownLimit : RateLimitHint := { requestsPerSecond := 0, requestsPerMinute := 0 }

/-- A source with one chapter of one page. -/
def onePage (headers : Map String String) : ContentProvider where
  hasStableChapterID := true
  fetchChapters _ := some
    [{ id := "1", name := "Chapter 1", url := "/c/1", number := 1065353216
       uploadDate := 1700000000000000000, sourceOrder := 0 }]
  fetchPages _ _ := some [{ index := 0, url := "https://img.test/1.jpg", headers }]
  fetchPageStream page :=
    if page.headers = headers then some { reads := [[255, 216]], fails := false } else none
  rateLimit := unknownLimit

def oneTitle (headers : Map String String) : MetadataProvider where
  search query _ := some
    [{ remoteID := "7", title := query, aliases := [], coverURL := "", url := "/7"
       availability := "available" }]
  details _ := none
  cover _ _ := some
    { url := "https://img.test/7.jpg", width := 200, height := 300, mimeType := "image/jpeg"
      headers }
  aliases _ := some []

def tokenTracker : Tracker where
  authenticate creds := some
    { accessToken := creds.accessToken, refreshToken := "", expiresAt := 1700000000000000000
      userID := "u" }
  pushProgress _ _ := true
  fetchProgress _ := some { status := "reading", score := 8, progress := 12, updatedAt := 0 }
  isAuthenticated := true

theorem inRange_examples (headers : Map String String) :
    InRange (oneTitle headers) (onePage headers) tokenTracker where
  details := by simp [oneTitle]
  cover _ _ img member := by
    cases member
    exact ⟨(by decide : FitsInt32 200), (by decide : FitsInt32 300)⟩
  chapters _ chapters member ch ch_member := by
    cases member
    cases List.mem_singleton.1 ch_member
    exact ⟨rfl, by decide⟩
  pages _ _ pages member pg pg_member := by
    cases member
    cases List.mem_singleton.1 pg_member
    exact (by decide : FitsInt32 0)
  session _ sess member := by
    cases member
    rfl
  progress _ prog member := by
    cases member
    exact ⟨by decide, by decide⟩

theorem lossless_iff_without_headers :
    Lossless (adapterOf "kiyomi.source" unknownLimit (oneTitle ∅) (onePage ∅) tokenTracker)
      (oneTitle ∅) (onePage ∅) tokenTracker :=
  (lossless_iff _ _ _ _ (adapterOf_serves _ _ _ _ _) (inRange_examples ∅)).2
    { cover := fun _ _ img member => by
        cases member
        rfl
      pages := fun _ _ pages member pg pg_member => by
        cases member
        cases List.mem_singleton.1 pg_member
        rfl }

/-- The request headers of an image server that refuses foreign pages. -/
def referer : Map String String := AList.singleton "Referer" "https://source.test/"

/-- A page whose image server wants a `Referer` reaches the plugin without it. -/
theorem lossless_fails_with_referer :
    Serves (adapterOf "kiyomi.source" unknownLimit (oneTitle referer) (onePage referer)
        tokenTracker) (oneTitle referer) (onePage referer) tokenTracker ∧
      InRange (oneTitle referer) (onePage referer) tokenTracker ∧
      ¬ Lossless (adapterOf "kiyomi.source" unknownLimit (oneTitle referer) (onePage referer)
        tokenTracker) (oneTitle referer) (onePage referer) tokenTracker := by
  have serves := adapterOf_serves "kiyomi.source" unknownLimit (oneTitle referer)
    (onePage referer) tokenTracker
  have range := inRange_examples referer
  refine ⟨serves, range, fun lossless => ?_⟩
  have passed := lossless.passedBack "7" "1"
  rw [map_fetchPages serves range fun _ => pageAtPlugin_page _] at passed
  have free : referer = ∅ := map_withoutHeaders_pages.1 passed _ rfl _ List.mem_cons_self
  have found : referer.lookup "Referer" = some "https://source.test/" := rfl
  rw [free] at found
  cases found

end Hotlink

end Kiyomi.Plugin
