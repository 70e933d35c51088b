import Kiyomi.Foundation.Run
import Mathlib.Data.Finset.Union
import Mathlib.Data.Finset.Filter

namespace Kiyomi.Web.ChapterOperations

/-! # Optimistic pull markers

`useChapterOperations`: a click on pull marks the chapter until an effect over the chapters and
the jobs of the manga removes the marker. -/

inductive JobStatus
  | pending | running | completed | failed
  deriving DecidableEq

structure Job where
  id : String
  type : String
  status : JobStatus
  metadata : Option (List (String × String)) := none

def Job.chapterId (j : Job) : Option String := j.metadata.bind (·.lookup "chapter_id")

def Job.isFinished (j : Job) : Bool := j.status == .completed || j.status == .failed

structure ChapterMeta where
  isDownloaded_ : Option Bool := none

/-- A chapter as the API returns it; fields in snake case end in an underscore. -/
structure Chapter where
  id : String
  isDownloaded_ : Option Bool := none
  isDownloaded : Option Bool := none
  chapterMeta : Option ChapterMeta := none

def isDownloaded (chapters : List Chapter) (id : String) : Bool :=
  let ch := chapters.find? (·.id == id)
  (((ch.bind (·.isDownloaded_)).or (ch.bind (·.isDownloaded))).or
    ((ch.bind (·.chapterMeta)).bind (·.isDownloaded_))).getD false

/-- Only the first job that is listed for the chapter counts. -/
def isJobFinished (mangaJobs : List Job) (id : String) : Bool :=
  (mangaJobs.find? fun j => j.type == "pull_chapter" && j.chapterId == some id).any Job.isFinished

/-- The effect that runs when the chapters or the jobs change. -/
def cleanup (chapters : List Chapter) (mangaJobs : List Job) (prev : Finset String) :
    Finset String :=
  prev.filter fun id => ¬(isDownloaded chapters id || isJobFinished mangaJobs id)

theorem mem_cleanup {chapters : List Chapter} {mangaJobs : List Job} {prev : Finset String}
    {id : String} :
    id ∈ cleanup chapters mangaJobs prev ↔
      id ∈ prev ∧ ¬(isDownloaded chapters id ∨ isJobFinished mangaJobs id) := by
  simp [cleanup]

/-- A mutation under way; one without a manga can only fail. -/
structure PullRequest where
  mangaId : String
  providerId : String
  chapterIds : List String

/-- A job that the server has created for a request, as it answers. -/
structure CreatedJob where
  id : String
  chapterId : String

/-- The hook with what it does not keep: the requests under way, the jobs that the answered ones
have created, and the jobs that the lists have shown finished. -/
structure Hook where
  targetMangaId : String
  activeContentProviderId : Option String
  optimisticPullIds : Finset String
  inFlight : List PullRequest
  created : List CreatedJob
  seenFinished : List String

namespace Hook

def initial (targetMangaId : String) (activeContentProviderId : Option String) : Hook :=
  { targetMangaId, activeContentProviderId, optimisticPullIds := ∅, inFlight := [], created := [],
    seenFinished := [] }

end Hook

inductive Event
  | handlePullChapter (chapterId providerId : String)
  | handleBatchPull (chapterIds : List String)
  | onSuccess (position : Nat) (jobs : List CreatedJob)
  | onError (position : Nat)
  /-- New chapters or new jobs; the effect runs. -/
  | update (chapters : List Chapter) (mangaJobs : List Job)
  /-- Other options; the effect does not run. -/
  | rerender (targetMangaId : String) (activeContentProviderId : Option String)

namespace Hook

def handlePullChapter (s : Hook) (chapterId providerId : String) : Hook :=
  { s with
    optimisticPullIds := insert chapterId s.optimisticPullIds
    inFlight := ⟨s.targetMangaId, providerId, [chapterId]⟩ :: s.inFlight }

def handleBatchPull (s : Hook) (chapterIds : List String) : Hook :=
  if s.targetMangaId = "" ∨ s.activeContentProviderId.getD "" = "" then s
  else
    { s with
      optimisticPullIds := s.optimisticPullIds ∪ chapterIds.toFinset
      inFlight := ⟨s.targetMangaId, s.activeContentProviderId.getD "", chapterIds⟩ :: s.inFlight }

/-- The callbacks of the mutations show a toast and refetch; no marker is touched. -/
def onSuccess (s : Hook) (position : Nat) (request : PullRequest) (jobs : List CreatedJob) :
    Hook :=
  { s with
    inFlight := s.inFlight.eraseIdx position
    created := jobs.filter (·.chapterId ∈ request.chapterIds) ++ s.created }

def onError (s : Hook) (position : Nat) : Hook :=
  { s with inFlight := s.inFlight.eraseIdx position }

def update (s : Hook) (chapters : List Chapter) (mangaJobs : List Job) : Hook :=
  { s with
    optimisticPullIds := cleanup chapters mangaJobs s.optimisticPullIds
    seenFinished := (mangaJobs.filter Job.isFinished).map (·.id) ++ s.seenFinished }

def step : StepFunction Hook Event
  | s, .handlePullChapter chapterId providerId => some (s.handlePullChapter chapterId providerId)
  | s, .handleBatchPull chapterIds => some (s.handleBatchPull chapterIds)
  | s, .onSuccess position jobs =>
      match s.inFlight[position]? with
      | some request =>
          if request.mangaId = "" then none else some (s.onSuccess position request jobs)
      | none => none
  | s, .onError position =>
      match s.inFlight[position]? with
      | some _ => some (s.onError position)
      | none => none
  | s, .update chapters mangaJobs => some (s.update chapters mangaJobs)
  | s, .rerender targetMangaId activeContentProviderId =>
      some { s with targetMangaId, activeContentProviderId }

/-! ## What is pending for a chapter -/

def Requested (s : Hook) (id : String) : Prop := ∃ request ∈ s.inFlight, id ∈ request.chapterIds

/-- A job created for the chapter has not been seen finished. -/
def Awaited (s : Hook) (id : String) : Prop :=
  ∃ job ∈ s.created, job.chapterId = id ∧ job.id ∉ s.seenFinished

def Pending (s : Hook) (id : String) : Prop := s.Requested id ∨ s.Awaited id

/-- No marker outlives what is pending for its chapter. -/
def Cleared (s : Hook) : Prop := ∀ id ∈ s.optimisticPullIds, s.Pending id

/-- Another request under way, or a created job, is left for the chapter once the request at the
position has been answered. -/
def PendingWithout (s : Hook) (position : Nat) (id : String) : Prop :=
  (∃ request ∈ s.inFlight.eraseIdx position, id ∈ request.chapterIds) ∨ s.Awaited id

/-- The events after which nothing but the effect has to clear markers: a request that fails, or
whose jobs have all been seen finished, was not the last thing pending for a marked chapter, and
lists that show the last job of a marked chapter finished also meet the effect's condition. -/
def Benign (s : Hook) : Event → Prop
  | .onError position =>
      ∀ id ∈ s.optimisticPullIds, ∀ request ∈ s.inFlight[position]?, id ∈ request.chapterIds →
        s.PendingWithout position id
  | .onSuccess position jobs =>
      ∀ id ∈ s.optimisticPullIds, ∀ request ∈ s.inFlight[position]?, id ∈ request.chapterIds →
        s.PendingWithout position id ∨ ∃ job ∈ jobs, job.chapterId = id ∧ job.id ∉ s.seenFinished
  | .update chapters mangaJobs =>
      ∀ id ∈ s.optimisticPullIds, ¬s.Requested id →
        (∀ job ∈ s.created, job.chapterId = id →
          job.id ∈ s.seenFinished ∨ ∃ j ∈ mangaJobs, j.isFinished ∧ j.id = job.id) →
        isDownloaded chapters id ∨ isJobFinished mangaJobs id
  | _ => True

variable {s : Hook} {id : String} {position : Nat}

theorem requested_cases (requested : s.Requested id) :
    (∃ request ∈ s.inFlight.eraseIdx position, id ∈ request.chapterIds) ∨
      ∃ request ∈ s.inFlight[position]?, id ∈ request.chapterIds := by
  rcases requested with ⟨request, member, mine⟩
  rcases List.mem_iff_getElem?.mp member with ⟨index, found⟩
  by_cases same : index = position
  · rw [same] at found
    exact .inr ⟨request, found, mine⟩
  · exact .inl ⟨request, List.mem_eraseIdx_iff_getElem?.mpr ⟨index, same, found⟩, mine⟩

theorem pending_cases (pending : s.Pending id) :
    s.PendingWithout position id ∨ ∃ request ∈ s.inFlight[position]?, id ∈ request.chapterIds := by
  rcases pending with requested | awaited
  · rcases requested_cases requested with other | mine
    · exact .inl (.inl other)
    · exact .inr mine
  · exact .inl (.inr awaited)

/-! ## One event -/

/-- A click marks what it asks for. -/
theorem cleared_click {next : Hook} {request : PullRequest} (cleared : s.Cleared)
    (marked : ∀ id ∈ next.optimisticPullIds,
      id ∈ s.optimisticPullIds ∨ id ∈ request.chapterIds)
    (inFlight : next.inFlight = request :: s.inFlight) (created : next.created = s.created)
    (seenFinished : next.seenFinished = s.seenFinished) : next.Cleared := by
  intro id member
  rcases marked id member with before | asked
  · rcases cleared id before with ⟨other, member, mine⟩ | awaited
    · exact .inl ⟨other, by simp [inFlight, member], mine⟩
    · right
      rw [Awaited, created, seenFinished]
      exact awaited
  · exact .inl ⟨request, by simp [inFlight], asked⟩

theorem cleared_handlePullChapter (cleared : s.Cleared) (chapterId providerId : String) :
    (s.handlePullChapter chapterId providerId).Cleared := by
  refine cleared_click cleared ?_ rfl rfl rfl
  intro id member
  rcases Finset.mem_insert.mp member with rfl | before
  · exact .inr List.mem_cons_self
  · exact .inl before

theorem cleared_handleBatchPull (cleared : s.Cleared) (chapterIds : List String) :
    (s.handleBatchPull chapterIds).Cleared := by
  unfold handleBatchPull
  split
  · exact cleared
  · refine cleared_click cleared ?_ rfl rfl rfl
    intro id member
    rcases Finset.mem_union.mp member with before | asked
    · exact .inl before
    · exact .inr (List.mem_toFinset.mp asked)

theorem cleared_onError_iff (cleared : s.Cleared) (position : Nat) :
    (s.onError position).Cleared ↔ s.Benign (.onError position) := by
  constructor
  · intro after id marked _ _ _
    exact after id marked
  · intro benign id marked
    rcases pending_cases (cleared id marked) with other | ⟨request, found, mine⟩
    · exact other
    · exact benign id marked request found mine

theorem pending_onSuccess_iff {request : PullRequest} {jobs : List CreatedJob} :
    (s.onSuccess position request jobs).Pending id ↔
      s.PendingWithout position id ∨
        id ∈ request.chapterIds ∧ ∃ job ∈ jobs, job.chapterId = id ∧ job.id ∉ s.seenFinished := by
  have awaited : (s.onSuccess position request jobs).Awaited id ↔
      s.Awaited id ∨
        id ∈ request.chapterIds ∧ ∃ job ∈ jobs, job.chapterId = id ∧ job.id ∉ s.seenFinished := by
    simp only [Awaited, onSuccess, List.mem_append, List.mem_filter, decide_eq_true_eq]
    grind
  rw [Pending, awaited, PendingWithout, or_assoc]
  rfl

theorem cleared_onSuccess_iff {request : PullRequest} (cleared : s.Cleared)
    (found : s.inFlight[position]? = some request) (jobs : List CreatedJob) :
    (s.onSuccess position request jobs).Cleared ↔ s.Benign (.onSuccess position jobs) := by
  constructor
  · intro after id marked other same mine
    rcases pending_onSuccess_iff.mp (after id marked) with other | ⟨_, unseen⟩
    · exact .inl other
    · exact .inr unseen
  · intro benign id marked
    rw [pending_onSuccess_iff]
    rcases pending_cases (cleared id marked) with other | ⟨asking, same, mine⟩
    · exact .inl other
    · obtain rfl : request = asking := Option.some.inj (found.symm.trans same)
      rcases benign id marked request found mine with other | unseen
      · exact .inl other
      · exact .inr ⟨mine, unseen⟩

theorem not_awaited_update_iff {chapters : List Chapter} {mangaJobs : List Job} :
    ¬(s.update chapters mangaJobs).Awaited id ↔
      ∀ job ∈ s.created, job.chapterId = id →
        job.id ∈ s.seenFinished ∨ ∃ j ∈ mangaJobs, j.isFinished ∧ j.id = job.id := by
  simp only [Awaited, update, List.mem_append, List.mem_map, List.mem_filter]
  grind

theorem cleared_update_iff (chapters : List Chapter) (mangaJobs : List Job) :
    (s.update chapters mangaJobs).Cleared ↔ s.Benign (.update chapters mangaJobs) := by
  constructor
  · intro after id marked unrequested finished
    by_contra kept
    rcases after id (mem_cleanup.mpr ⟨marked, kept⟩) with requested | awaited
    · exact unrequested requested
    · exact not_awaited_update_iff.mpr finished awaited
  · intro benign id kept
    rcases mem_cleanup.mp kept with ⟨marked, kept⟩
    by_contra none
    rcases not_or.mp none with ⟨unrequested, unawaited⟩
    exact kept (benign id marked unrequested (not_awaited_update_iff.mp unawaited))

/-- An event leaves no marker that nothing is pending for exactly if it is benign. -/
theorem cleared_step_iff {next : Hook} {event : Event} (cleared : s.Cleared)
    (taken : step s event = some next) : next.Cleared ↔ s.Benign event := by
  cases event with
  | handlePullChapter chapterId providerId =>
      cases taken
      exact iff_of_true (cleared_handlePullChapter cleared _ _) trivial
  | handleBatchPull chapterIds =>
      cases taken
      exact iff_of_true (cleared_handleBatchPull cleared _) trivial
  | onSuccess position jobs =>
      simp only [step] at taken
      split at taken
      · rename_i request found
        split at taken
        · contradiction
        · cases taken
          exact cleared_onSuccess_iff cleared found jobs
      · contradiction
  | onError position =>
      simp only [step] at taken
      split at taken
      · cases taken
        exact cleared_onError_iff cleared position
      · contradiction
  | update chapters mangaJobs =>
      cases taken
      exact cleared_update_iff chapters mangaJobs
  | rerender targetMangaId activeContentProviderId =>
      cases taken
      exact iff_of_true cleared trivial

/-! ## Whole runs -/

/-- In a run from the mount on, no marker ever outlives what is pending for its chapter exactly
if every event of the run is benign. -/
theorem markers_cleared_iff {targetMangaId : String} {activeContentProviderId : Option String}
    {events : List Event} {last : Hook}
    (run : Run step (fun _ _ => True) (initial targetMangaId activeContentProviderId) events
      last) :
    Run.Throughout step Cleared (initial targetMangaId activeContentProviderId) events ↔
      Run step Benign (initial targetMangaId activeContentProviderId) events last := by
  refine run.throughout_iff Cleared (fun _ cleared => cleared) ?_ ?_
  · intro s event next cleared taken
    have exactly := cleared_step_iff cleared taken
    exact ⟨exactly.mpr, exactly.mp⟩
  · intro id marked
    exact absurd marked (Finset.notMem_empty id)

/-! A chapter is pulled, its job is seen running and then completed. -/

instance : DecidablePred s.Requested := fun _ => inferInstanceAs (Decidable (∃ _ ∈ _, _))

instance : DecidablePred s.Awaited := fun _ => inferInstanceAs (Decidable (∃ _ ∈ _, _))

instance : DecidablePred s.Pending := fun _ => inferInstanceAs (Decidable (_ ∨ _))

instance : DecidablePred (s.PendingWithout position) :=
  fun _ => inferInstanceAs (Decidable (_ ∨ _))

instance : DecidablePred s.Benign
  | .handlePullChapter _ _ => isTrue trivial
  | .handleBatchPull _ => isTrue trivial
  | .onSuccess _ _ => inferInstanceAs (Decidable (∀ _ ∈ s.optimisticPullIds, _))
  | .onError _ => inferInstanceAs (Decidable (∀ _ ∈ s.optimisticPullIds, _))
  | .update _ _ => inferInstanceAs (Decidable (∀ _ ∈ s.optimisticPullIds, _))
  | .rerender _ _ => isTrue trivial

def pullJob (status : JobStatus) : Job :=
  { id := "j-1", type := "pull_chapter", status, metadata := some [("chapter_id", "ch-1")] }

theorem markers_cleared :
    Run.Throughout step Cleared (initial "m-1" (some "mangafox"))
      [.handlePullChapter "ch-1" "mangafox", .onSuccess 0 [⟨"j-1", "ch-1"⟩],
        .update [⟨"ch-1", some false, none, none⟩] [pullJob .running],
        .update [⟨"ch-1", some false, none, none⟩] [pullJob .completed]] := by
  have executed : (Run.execute step (fun s event => decide (s.Benign event))
      (initial "m-1" (some "mangafox"))
      [.handlePullChapter "ch-1" "mangafox", .onSuccess 0 [⟨"j-1", "ch-1"⟩],
        .update [⟨"ch-1", some false, none, none⟩] [pullJob .running],
        .update [⟨"ch-1", some false, none, none⟩] [pullJob .completed]]).isSome = true := by
    decide +kernel
  rcases Option.isSome_iff_exists.mp executed with ⟨last, executed⟩
  have run := Run.ofExecute executed
  have benign := run.weaken fun s event permitted => of_decide_eq_true permitted
  exact (markers_cleared_iff (run.weaken fun _ _ _ => trivial)).mpr benign

/-- The marker of a request that fails is left, and no list without a job for the chapter takes
it away. -/
theorem failed_pull_stays_marked :
    ∃ last, Run step (fun _ _ => True) (initial "m-1" (some "mangafox"))
        [.handlePullChapter "ch-1" "mangafox", .onError 0,
          .update [⟨"ch-1", some false, none, none⟩] []] last ∧
      "ch-1" ∈ last.optimisticPullIds ∧ ¬last.Pending "ch-1" := by
  have executed : ((Run.execute step (fun _ _ => true) (initial "m-1" (some "mangafox"))
      [.handlePullChapter "ch-1" "mangafox", .onError 0,
        .update [⟨"ch-1", some false, none, none⟩] []]).any fun last =>
          decide ("ch-1" ∈ last.optimisticPullIds ∧ ¬last.Pending "ch-1")) = true := by
    decide +kernel
  rcases (Option.any_eq_true _ _).mp executed with ⟨last, executed, left⟩
  exact ⟨last, (Run.ofExecute executed).weaken fun _ _ _ => trivial, of_decide_eq_true left⟩

end Hook

end Kiyomi.Web.ChapterOperations
