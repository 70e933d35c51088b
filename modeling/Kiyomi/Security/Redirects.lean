import Kiyomi.Queue.PullFiles
import Kiyomi.Security.ImageFetches

namespace Kiyomi.Security

open Go Library Queue

/-! # Redirects of image requests

Every path asks the guard about the URL it is given and requests no other URL itself. The
client then follows redirects without asking. -/

/-- A call that fetches no URL but this one. -/
def IsFetchOf (rawURL : Option String) : FileCall Document PullQuestion → Prop
  | .ask (.fetch url _) => rawURL = some url
  | _ => True

/-- A program that fetches no URL but this one. -/
def FetchesOnly (rawURL : Option String) (program : PullEffect α) : Prop :=
  program.Calls (IsFetchOf rawURL) fun _ => True

namespace FetchesOnly

variable {l : Layout} {rawURL : Option String}

theorem bind {program : PullEffect α} {next : α → PullEffect β}
    (fetches : FetchesOnly rawURL program) (rest : ∀ value, FetchesOnly rawURL (next value)) :
    FetchesOnly rawURL (program >>= next) :=
  Program.Calls.bind fetches fun value _ => rest value

theorem request {c : FileCall Document PullQuestion} (allowed : IsFetchOf rawURL c)
    {next : c.Reply PullQuestion.Answer → PullEffect α}
    (rest : ∀ reply, FetchesOnly rawURL (next reply)) :
    FetchesOnly rawURL (Library.request c >>= next) :=
  calls_request allowed rest

/-- What only uses files fetches nothing. -/
theorem of_uses {program : PullEffect α} (uses : Uses (fun _ => True) (fun _ => True) program) :
    FetchesOnly rawURL program := by
  refine uses.mono (fun c ⟨dir, _, inside⟩ => ?_) fun _ holds => holds
  unfold IsFetchOf
  split
  · exact (inside.ne_ask _ rfl).elim
  · trivial

theorem replaceFile (dir : Path) (base name : String) (content : Document) :
    FetchesOnly rawURL (Library.replaceFile dir base (dir ++ [name]) content) :=
  of_uses (replaceFile_uses trivial base name content)

theorem releaseCoverClaim (mangaID : String) :
    FetchesOnly rawURL (Effects.releaseCoverClaim l mangaID) :=
  of_uses (Effects.releaseCoverClaim_uses fun _ _ => trivial)

theorem targetIn (dir : Path) (name : String → String) (suffix : String) :
    FetchesOnly rawURL (Queue.targetIn dir name suffix) := by
  unfold Queue.targetIn
  refine request (by trivial) fun reply => ?_
  split <;> trivial

theorem takeCached (cachedPath : Path) (resolved : Option (Path × String)) :
    FetchesOnly rawURL (Queue.takeCached cachedPath resolved) := by
  unfold Queue.takeCached
  split
  · trivial
  rename_i dir name
  refine request (by trivial) fun made => ?_
  split
  · refine request (by trivial) fun removed => request (by trivial) fun linked => ?_
    split
    · trivial
    refine bind ?_ fun copied => ?_
    · unfold copyFileAtomically
      refine request (by trivial) fun content => ?_
      split
      · trivial
      · exact replaceFile dir name name _
    · split <;> trivial
  · trivial

theorem fetchImage {rawURL : String} (dir : Path) (providerID : String)
    (name : String → String) :
    FetchesOnly (some rawURL)
      (Queue.fetchImage l rawURL providerID (Queue.targetIn dir name)) := by
  unfold Queue.fetchImage
  refine request ?_ fun response => ?_
  · exact rfl
  split
  · trivial
  split
  · trivial
  refine bind (targetIn dir name _) fun resolved => ?_
  split
  · trivial
  refine bind (replaceFile _ _ _ _) fun saved => ?_
  split <;> trivial

theorem downloadImage {rawURL : String} (dir : Path) (providerID : String)
    (name : String → String) :
    FetchesOnly (some rawURL)
      (Queue.downloadImage l rawURL providerID (Queue.targetIn dir name)) := by
  unfold Queue.downloadImage
  refine request (by trivial) fun found => ?_
  split
  · exact fetchImage dir providerID name
  refine bind (targetIn dir name _) fun resolved => ?_
  refine bind (takeCached _ _) fun taken => ?_
  split
  · trivial
  · exact fetchImage dir providerID name

theorem fetchUpstream {rawURL : String} (providerID : String) :
    FetchesOnly (some rawURL) (Security.fetchUpstream rawURL providerID) := by
  unfold Security.fetchUpstream
  refine request ?_ fun response => ?_
  · exact rfl
  split <;> trivial

variable {cache : ImageCache} {fetcher : PullEffect (Option Response)}

theorem populate (urlStr : String) (fetches : FetchesOnly rawURL fetcher) :
    FetchesOnly rawURL (cache.populate urlStr fetcher) := by
  unfold ImageCache.populate
  refine request (by trivial) fun found => ?_
  split
  · trivial
  refine request (by trivial) fun made => ?_
  split
  · refine bind fetches fun fetched => ?_
    split
    · trivial
    refine bind (replaceFile _ _ _ _) fun saved => ?_
    split
    · refine bind ?_ fun written => ?_
      · unfold ImageCache.writeFile
        refine request (by trivial) fun created => ?_
        split
        · trivial
        · exact request (by trivial) fun written => trivial
      · split
        · trivial
        · exact request (by trivial) fun removed => trivial
    · trivial
  · trivial

theorem fetchThenOpen (urlStr : String) (fetches : FetchesOnly rawURL fetcher) :
    FetchesOnly rawURL (cache.fetchThenOpen urlStr fetcher) := by
  unfold ImageCache.fetchThenOpen
  refine bind (populate urlStr fetches) fun stored => ?_
  split
  · trivial
  refine request (by trivial) fun body => ?_
  split <;> trivial

theorem getOrFetch (urlStr : String) (fetches : FetchesOnly rawURL fetcher) :
    FetchesOnly rawURL (cache.getOrFetch urlStr fetcher) := by
  unfold ImageCache.getOrFetch
  refine request (by trivial) fun found => ?_
  split
  · exact fetchThenOpen urlStr fetches
  refine request (by trivial) fun body => ?_
  split
  · trivial
  · exact fetchThenOpen urlStr fetches

end FetchesOnly

/-! ## The guard comes first -/

/-- On every run only this URL is fetched, and only after the guard has accepted it. -/
def Guarded (rawURL : String) (program : PullEffect α) : Prop :=
  ∀ first last choices result, program.run Files.respond first choices = some (result, last) →
    ∀ url providerID response, .answer (.fetch url providerID) response ∈ choices →
      url = rawURL ∧ .answer (.validateURL rawURL) true ∈ choices

namespace Guarded

variable {l : Layout} {rawURL : String}

theorem of_no_fetch {program : PullEffect α} (fetches : FetchesOnly none program) :
    Guarded rawURL program := by
  intro first last choices result ran url providerID response answered
  exact nomatch asked_of_run fetches ran answered

/-- A program that asks the guard first and goes on only when it accepts the URL. -/
theorem of_ask {next : Bool → PullEffect α} (refused : FetchesOnly none (next false))
    (accepted : FetchesOnly (some rawURL) (next true)) :
    Guarded rawURL (askOutside (.validateURL rawURL) >>= next) := by
  intro first last choices result ran url providerID response answered
  rcases run_askOutside.mp ran with ⟨valid, rest, rfl, rest_ran⟩
  have later : .answer (.fetch url providerID) response ∈ rest := by
    rcases List.mem_cons.mp answered with same | later
    · cases same
    · exact later
  cases valid with
  | false => exact nomatch asked_of_run refused rest_ran later
  | true =>
      have same : some rawURL = some url := asked_of_run accepted rest_ran later
      exact ⟨(Option.some.inj same).symm, List.mem_cons_self⟩

/-- What is returned in the end does not matter. -/
theorem discard {program : PullEffect α} (guarded : Guarded rawURL program) :
    Guarded rawURL (program >>= fun _ => (pure () : PullEffect Unit)) := by
  intro first last choices result ran url providerID response answered
  rcases Program.run_bind.mp ran with ⟨before, after, value, middle, rfl, program_ran, rest⟩
  rcases Program.run_done.mp rest with ⟨rfl, _, _⟩
  rw [List.append_nil] at answered ⊢
  exact guarded _ _ _ _ program_ran url providerID response answered

theorem syncCover (mangaID coverURL : String) :
    Guarded coverURL (Security.syncCover l mangaID coverURL) := by
  unfold Security.syncCover
  split
  · exact of_no_fetch trivial
  refine of_ask trivial ?_
  simp only [Bool.not_true, Bool.false_eq_true, if_false]
  split
  · trivial
  rename_i mangaDir _
  refine FetchesOnly.request (by trivial) fun made => ?_
  split
  · refine FetchesOnly.request ?_ fun response => ?_
    · exact rfl
    split
    · trivial
    split
    · trivial
    · exact FetchesOnly.replaceFile mangaDir "cover" _ _
  · trivial

theorem handlePullPage (p : PullPagePayload) :
    Guarded p.pageURL (Queue.handlePullPage l p) := by
  unfold Queue.handlePullPage
  split
  · exact of_no_fetch trivial
  refine of_ask trivial ?_
  simp only [Bool.not_true, Bool.false_eq_true, if_false]
  refine FetchesOnly.bind (FetchesOnly.downloadImage _ _ _) fun handled => ?_
  split
  · refine FetchesOnly.bind ?_ fun stored => ?_
    · exact FetchesOnly.of_uses (Effects.getChapter_reads fun _ _ => trivial).uses
    split
    · trivial
    refine FetchesOnly.request (by trivial) fun downloadedAt => ?_
    refine FetchesOnly.bind ?_ fun saved => ?_
    · exact FetchesOnly.of_uses (Effects.saveChapter_uses fun _ _ => trivial)
    split <;> trivial
  · trivial

theorem handlePullCover (p : PullCoverPayload) :
    Guarded p.coverURL (Queue.handlePullCover l p) := by
  unfold Queue.handlePullCover
  split
  · exact of_no_fetch trivial
  refine of_ask ?_ ?_
  · exact FetchesOnly.bind (FetchesOnly.releaseCoverClaim p.mangaID) fun _ => trivial
  simp only [Bool.not_true, Bool.false_eq_true, if_false]
  refine FetchesOnly.bind (FetchesOnly.of_uses (coverProvider_reads p).uses) fun providerID => ?_
  refine FetchesOnly.bind (FetchesOnly.downloadImage _ _ _) fun handled => ?_
  split
  · refine FetchesOnly.bind (FetchesOnly.releaseCoverClaim p.mangaID) fun released => ?_
    split <;> trivial
  · exact FetchesOnly.bind (FetchesOnly.releaseCoverClaim p.mangaID) fun _ => trivial

theorem streamRemoteImage (dataURI : String → Streamed) (imageCache : Option ImageCache)
    (urlStr providerID : String) :
    Guarded urlStr (Security.streamRemoteImage dataURI imageCache urlStr providerID) := by
  unfold Security.streamRemoteImage
  split
  · exact of_no_fetch trivial
  refine of_ask trivial ?_
  simp only [Bool.not_true, Bool.false_eq_true, if_false]
  split
  · refine FetchesOnly.request ?_ fun response => ?_
    · exact rfl
    split
    · trivial
    split <;> trivial
  · refine FetchesOnly.bind ?_ fun streamed => ?_
    · exact FetchesOnly.getOrFetch urlStr (FetchesOnly.fetchUpstream providerID)
    split <;> trivial

theorem program (fetch : ImageFetch) : Guarded fetch.url (fetch.program l) := by
  cases fetch with
  | syncCover mangaID coverURL => exact (syncCover mangaID coverURL).discard
  | pullPage payload => exact (handlePullPage payload).discard
  | pullCover payload => exact (handlePullCover payload).discard
  | streamRemoteImage dataURI imageCache urlStr providerID =>
      exact (streamRemoteImage dataURI imageCache urlStr providerID).discard

end Guarded

/-! ## Where redirects lead -/

/-- Some request was sent to the network on the run. -/
def Fetched (choices : List (FileChoice PullQuestion.Answer)) : Prop :=
  ∃ url providerID response, .answer (.fetch url providerID) response ∈ choices

namespace Web

variable {web : Web} {rawURL : String} {choices : List (FileChoice PullQuestion.Answer)}

/-- No response in the chain of redirects from the URL redirects to a URL that the guard
refuses and the transport sends. -/
def RedirectsAccepted (web : Web) (rawURL : String) : Prop :=
  ∀ u, web.names.parse rawURL = some u → Http.RedirectsTo web.net (web.accepts ·) u

theorem mem_requests {u : Http.URL} : u ∈ web.requests choices ↔
    ∃ url providerID response, .answer (.fetch url providerID) response ∈ choices ∧
      u ∈ (web.fetch url).1 := by
  unfold requests
  rw [List.mem_flatMap]
  constructor
  · rintro ⟨choice, member, requested⟩
    split at requested
    · exact ⟨_, _, _, member, requested⟩
    · exact nomatch requested
  · rintro ⟨url, providerID, response, member, requested⟩
    exact ⟨_, member, requested⟩

/-- What a fetch of a URL that the guard accepts requests. -/
theorem forall_fetch_iff
    (valid : (Ssrfguard.validateURL web.names rawURL web.allowPrivateNetworks).isSome) :
    (∀ u ∈ (web.fetch rawURL).1, web.accepts u) ↔ web.RedirectsAccepted rawURL := by
  rcases Ssrfguard.validateURL_isSome.mp valid with ⟨u, parsed, accepted⟩
  have requests : (web.fetch rawURL).1 = (Http.clientDo web.net u).1 := by
    rw [fetch, parsed]
  have same : web.RedirectsAccepted rawURL ↔ Http.RedirectsTo web.net (web.accepts ·) u := by
    simp [RedirectsAccepted, parsed]
  rw [requests, same]
  exact Http.forall_requests_iff accepted

end Web

/-- On every path, what is requested is accepted by the guard exactly if nothing is fetched
or no redirect leads to a URL that the guard refuses. -/
theorem requests_accepted_iff (l : Layout) (web : Web) (fetch : ImageFetch)
    (first last : Files Document) (choices : List (FileChoice PullQuestion.Answer))
    (ran : (fetch.program l).run Files.respond first choices = some ((), last))
    (answers : ∀ choice ∈ choices, web.Answers choice) :
    (∀ u ∈ web.requests choices, web.accepts u) ↔
      (Fetched choices → web.RedirectsAccepted fetch.url) := by
  have guarded := Guarded.program fetch first last choices () ran
  have valid : ∀ url providerID response, .answer (.fetch url providerID) response ∈ choices →
      (Ssrfguard.validateURL web.names fetch.url web.allowPrivateNetworks).isSome := by
    intro url providerID response fetched
    have answered := answers _ (guarded url providerID response fetched).2
    exact answered.symm
  constructor
  · rintro all ⟨url, providerID, response, fetched⟩
    rw [← Web.forall_fetch_iff (valid url providerID response fetched)]
    intro u requested
    have same := (guarded url providerID response fetched).1
    exact all u (Web.mem_requests.mpr ⟨url, providerID, response, fetched, same ▸ requested⟩)
  · intro redirected u requested
    rcases Web.mem_requests.mp requested with ⟨url, providerID, response, fetched, requested⟩
    have same := (guarded url providerID response fetched).1
    have all := (Web.forall_fetch_iff (valid url providerID response fetched)).mpr
      (redirected ⟨url, providerID, response, fetched⟩)
    exact all u (same ▸ requested)

section MovedImage

def imageURL : Http.URL := ⟨"https", "cdn.test", "/a.jpg"⟩

def movedURL : Http.URL := ⟨"https", "cdn.test", "/b.jpg"⟩

def metadataService : Http.URL := ⟨"http", "169.254.169.254", "/latest/meta-data/"⟩

def cdnNames : Ssrfguard.Names where
  parse rawURL := if rawURL = "https://cdn.test/a.jpg" then some imageURL else none
  parseIP host := if host = "169.254.169.254" then some (IP.mapped 169 254 169 254) else none
  lookupIP host := if host = "cdn.test" then some [IP.mapped 93 184 216 34] else none

/-- A public server that answers the request for one image with a redirect. -/
def movedImage (location : String) : Web where
  names := cdnNames
  net :=
    { resolve := fun _ reference =>
        if reference = "/b.jpg" then some movedURL
        else if reference = "http://169.254.169.254/latest/meta-data/" then some metadataService
        else none
      respond := fun _ u =>
        if u = imageURL then some ⟨302, location, "", []⟩
        else some ⟨200, "", "image/jpeg", [255, 216]⟩ }
  allowPrivateNetworks := false

/-- The image proxy without an image cache. -/
def proxied : ImageFetch :=
  .streamRemoteImage (fun _ => .error 400) none "https://cdn.test/a.jpg" ""

def proxiedRun (web : Web) : List (FileChoice PullQuestion.Answer) :=
  [.answer (.validateURL "https://cdn.test/a.jpg") true,
    .answer (.fetch "https://cdn.test/a.jpg" "") (web.fetch "https://cdn.test/a.jpg").2]

theorem proxied_ran (l : Layout) (web : Web) (files : Files Document) :
    (proxied.program l).run Files.respond files (proxiedRun web) = some ((), files) := by
  have remote : hasPrefix "https://cdn.test/a.jpg" "data:" = false := by decide +kernel
  simp only [proxied, ImageFetch.program, streamRemoteImage, remote]
  refine run_askOutside.mpr ⟨true, _, rfl, ?_⟩
  refine run_askOutside.mpr ⟨_, [], rfl, ?_⟩
  cases (web.fetch "https://cdn.test/a.jpg").2 with
  | none => rfl
  | some resp => by_cases error : 400 ≤ resp.statusCode <;> simp [Program.bind, error, Program.run]

theorem proxiedRun_answers (location : String) :
    ∀ choice ∈ proxiedRun (movedImage location), (movedImage location).Answers choice := by
  have valid : (Ssrfguard.validateURL cdnNames "https://cdn.test/a.jpg" false).isSome = true := by
    decide +kernel
  intro choice member
  rcases List.mem_pair.mp member with rfl | rfl
  · exact valid.symm
  · rfl

theorem requests_accepted_iff_moved_image :
    (movedImage "/b.jpg").requests (proxiedRun (movedImage "/b.jpg")) = [imageURL, movedURL] ∧
      (movedImage "/b.jpg").RedirectsAccepted "https://cdn.test/a.jpg" := by
  have requests : (movedImage "/b.jpg").requests (proxiedRun (movedImage "/b.jpg")) =
      [imageURL, movedURL] := by
    decide +kernel
  refine ⟨requests, ?_⟩
  refine (requests_accepted_iff libraryLayout (movedImage "/b.jpg") proxied
    (.ofTree libraryDisk) (.ofTree libraryDisk) _ (proxied_ran _ _ _)
    (proxiedRun_answers "/b.jpg")).mp ?_ ⟨_, _, _, List.mem_cons_of_mem _ List.mem_cons_self⟩
  rw [requests]
  decide +kernel

/-- The proxy follows a redirect to the metadata service of a cloud host. -/
theorem redirect_to_metadata_requested :
    ∃ choices last, (proxied.program libraryLayout).run Files.respond
        (.ofTree libraryDisk) choices = some ((), last) ∧
      (∀ choice ∈ choices,
        (movedImage "http://169.254.169.254/latest/meta-data/").Answers choice) ∧
      metadataService ∈
        (movedImage "http://169.254.169.254/latest/meta-data/").requests choices ∧
      (movedImage "http://169.254.169.254/latest/meta-data/").accepts metadataService = false :=
  ⟨_, _, proxied_ran _ _ _, proxiedRun_answers _, by decide +kernel, by decide +kernel⟩

end MovedImage

end Kiyomi.Security
