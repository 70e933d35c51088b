import Kiyomi.Foundation.Run
import Kiyomi.Queue.PullFiles

namespace Kiyomi.Queue

open Go Library

/-! # Deletions among pull jobs

`DeleteManga` and `DeleteChapter` fall anywhere between the calls of the handlers that the
workers run. They neither cancel the jobs of what they delete nor wait for them. -/

/-- A pull job, and the request of a client that it goes back to. -/
structure PullJob where
  request : Nat
  payload : PullPayload
  deriving DecidableEq

/-- What a worker runs: a job and what is left of its handler. -/
structure RunningJob where
  job : PullJob
  rest : PullEffect Handled

inductive Deletion
  | manga (mangaID : String)
  | chapter (mangaID providerID chapterID : String)
  deriving DecidableEq

/-- The directory that is removed. -/
def Deletion.dir (l : Layout) : Deletion → Except PathError Path
  | .manga mangaID => l.mangaDir mangaID
  | .chapter mangaID providerID chapterID => l.providerChapterDir mangaID providerID chapterID

inductive DiskEvent
  | requested (request : Nat)
  /-- A deletion has returned. -/
  | deleted (deletion : Deletion) (dir : Path)
  /-- A step of a job has made a directory or created a file. -/
  | created (job : PullJob) (path : Path)
  deriving DecidableEq

structure PullSystem where
  tree : Disk
  pending : List PullJob
  running : List RunningJob
  /-- The requests so far. -/
  requests : Nat
  /-- Newest first. -/
  history : List DiskEvent

inductive PullSystem.Action
  /-- A client asks for a pull. -/
  | request (payload : PullPayload)
  | start (position : Nat)
  /-- The next call of a handler. -/
  | call (position : Nat) (choice : FileChoice PullQuestion.Answer)
  /-- A handler returns; a job that failed may come back. -/
  | finish (position : Nat) (retry : Bool)
  | cancel (position : Nat)
  | delete (deletion : Deletion)
  /-- Everything else: imports, saves, other jobs. -/
  | elsewhere (tree : Disk)

def PullSystem.initial (disk : Disk) : PullSystem where
  tree := disk
  pending := []
  running := []
  requests := 0
  history := []

/-- The jobs that a call leaves in the queue. -/
def children (request : Nat) :
    (c : FileCall Document PullQuestion) → c.Reply PullQuestion.Answer → List PullJob
  | .ask (.enqueueChild payload), reply => if reply = Enqueued.failed then [] else [⟨request, payload⟩]
  | _, _ => []

def DiskEvent.ofTouch (job : PullJob) (touch : Touch) : Option DiskEvent :=
  touch.made.map (.created job)

namespace PullSystem

variable (l : Layout) (encode : List PageItem → List UInt8)

/-- The next call of a running job. -/
def callNext (s : PullSystem) (position : Nat) (choice : FileChoice PullQuestion.Answer) :
    Option PullSystem :=
  match focus position s.running with
  | none => none
  | some (before, ⟨job, rest⟩, after) =>
      match rest with
      | .done _ => none
      | .call c next =>
          match (Files.ofTree s.tree).respond c choice with
          | none => none
          | some (reply, files) =>
              some { s with
                tree := files.tree
                pending := s.pending ++ children job.request c reply
                running := before ++ ⟨job, next reply⟩ :: after
                history := files.touched.filterMap (DiskEvent.ofTouch job) ++ s.history }

def step (s : PullSystem) : Action → Option PullSystem
  | .request payload =>
      some { s with
        pending := s.pending ++ [⟨s.requests, payload⟩]
        requests := s.requests + 1
        history := .requested s.requests :: s.history }
  | .start position =>
      match focus position s.pending with
      | none => none
      | some (before, job, after) =>
          some { s with
            pending := before ++ after
            running := s.running ++ [⟨job, handlePull l encode job.payload⟩] }
  | .call position choice => s.callNext position choice
  | .finish position retry =>
      match focus position s.running with
      | some (before, ⟨job, .done handled⟩, after) =>
          some { s with
            pending := if handled = .failed && retry then s.pending ++ [job] else s.pending
            running := before ++ after }
      | _ => none
  | .cancel position =>
      match focus position s.pending with
      | none => none
      | some (before, _, after) => some { s with pending := before ++ after }
  | .delete deletion =>
      match deletion.dir l with
      | .error _ => some s
      | .ok dir =>
          some { s with
            tree := s.tree.removeAll dir
            history := .deleted deletion dir :: s.history }
  | .elsewhere tree => some { s with tree }

end PullSystem

/-! ## The property -/

def PullPayload.mangaID : PullPayload → String
  | .manga p => p.mangaID
  | .chapter p => p.mangaID
  | .page p => p.mangaID
  | .cover p => p.mangaID

/-- Whether a job is one of the deleted manga or of the deleted chapter. -/
def Deletion.Concerns (l : Layout) : Deletion → PullPayload → Prop
  | .manga mangaID, payload => l.mangaDir payload.mangaID = l.mangaDir mangaID
  | .chapter mangaID _ _, .manga p => l.mangaDir p.mangaID = l.mangaDir mangaID
  | .chapter mangaID providerID chapterID, .chapter p =>
      l.mangaDir p.mangaID = l.mangaDir mangaID ∧
        l.providerChapterDir p.mangaID p.providerID p.chapterID =
          l.providerChapterDir mangaID providerID chapterID
  | .chapter mangaID providerID chapterID, .page p =>
      l.mangaDir p.mangaID = l.mangaDir mangaID ∧
        l.providerChapterDir p.mangaID p.providerID p.chapterID =
          l.providerChapterDir mangaID providerID chapterID
  | .chapter .., .cover _ => False

/-- After a deletion no job of what was deleted, and of a request before the deletion, has
created the directory or anything below it. -/
def StaysDeleted (l : Layout) (history : List DiskEvent) : Prop :=
  ∀ later deletion dir earlier, history = later ++ .deleted deletion dir :: earlier →
    ∀ job path, .created job path ∈ later → deletion.Concerns l job.payload →
      .requested job.request ∈ earlier → ¬ dir <+: path

/-! ## The jobs that handlers enqueue -/

/-- The jobs that the handler of a job can enqueue. -/
def PullPayload.Enqueues : PullPayload → PullPayload → Prop
  | .manga p, .chapter q => q.mangaID = p.mangaID ∧ q.providerID = p.providerID
  | .manga p, .cover q => q.mangaID = p.mangaID
  | .chapter p, .page q =>
      q.mangaID = p.mangaID ∧ q.providerID = p.providerID ∧ q.chapterID = p.chapterID
  | _, _ => False

/-- A deletion that concerns a job concerns the job that enqueued it. -/
theorem Deletion.concerns_parent {l : Layout} {deletion : Deletion} {parent child : PullPayload}
    (enqueues : parent.Enqueues child) (concerns : deletion.Concerns l child) :
    deletion.Concerns l parent := by
  cases parent with
  | manga p =>
      cases child with
      | chapter q =>
          rcases p with ⟨_, _, _, _⟩
          rcases q with ⟨_, _, _⟩
          rcases enqueues with ⟨rfl, rfl⟩
          cases deletion with
          | manga mangaID => exact concerns
          | chapter mangaID providerID chapterID => exact concerns.1
      | cover q =>
          rcases p with ⟨_, _, _, _⟩
          rcases q with ⟨_, _, _⟩
          cases (enqueues : _ = _)
          cases deletion with
          | manga mangaID => exact concerns
          | chapter mangaID providerID chapterID => exact concerns.elim
      | manga q | page q => exact enqueues.elim
  | chapter p =>
      cases child with
      | page q =>
          rcases p with ⟨_, _, _⟩
          rcases q with ⟨_, _, _, _, _⟩
          rcases enqueues with ⟨rfl, rfl, rfl⟩
          cases deletion with
          | manga mangaID => exact concerns
          | chapter mangaID providerID chapterID => exact concerns
      | manga q | chapter q | cover q => exact enqueues.elim
  | page p | cover p => exact enqueues.elim

/-- A call that enqueues nothing but jobs of a kind. -/
def OnlyEnqueues (kind : PullPayload → Prop) (c : FileCall Document PullQuestion) : Prop :=
  ∀ child, c = .ask (.enqueueChild child) → kind child

section Children

variable {l : Layout} {kind : PullPayload → Prop}

/-- The operations of the library enqueue nothing. -/
theorem enqueues_of_uses {program : PullEffect α} {dirs : Path → Prop} {post : α → Prop}
    (uses : Uses dirs post program) : program.Calls (OnlyEnqueues kind) post :=
  uses.mono (fun _ ⟨_, _, inside⟩ _ same => absurd same (inside.ne_ask _)) fun _ holds => holds

theorem calls_ask {question : PullQuestion} (other : ∀ child, question ≠ .enqueueChild child)
    {post : α → Prop} {next : question.Answer → PullEffect α}
    (rest : ∀ answer, (next answer).Calls (OnlyEnqueues kind) post) :
    (askOutside question >>= next).Calls (OnlyEnqueues kind) post :=
  calls_request (fun child same => absurd (FileCall.ask.inj same) (other child)) rest

theorem calls_file {c : FileCall Document PullQuestion} (other : ∀ question, c ≠ .ask question)
    {post : α → Prop} {next : c.Reply PullQuestion.Answer → PullEffect α}
    (rest : ∀ reply, (next reply).Calls (OnlyEnqueues kind) post) :
    (request c >>= next).Calls (OnlyEnqueues kind) post :=
  calls_request (fun _ same => absurd same (other _)) rest

theorem enqueueChild_enqueues {payload : PullPayload} (isKind : kind payload) :
    (enqueueChild payload).Calls (OnlyEnqueues kind) fun _ => True := by
  unfold enqueueChild
  refine calls_request (fun child same => ?_) fun _ => trivial
  cases same
  exact isKind

theorem replaceFile_enqueues (dir : Path) (base name : String) (content : Document) :
    (replaceFile dir base (dir ++ [name]) content : PullEffect Bool).Calls (OnlyEnqueues kind)
      fun _ => True :=
  enqueues_of_uses (@replaceFile_uses _ _ (· = dir) dir rfl base name content)

theorem takeCached_enqueues (cachedPath : Path) (resolved : Option (Path × String)) :
    (takeCached cachedPath resolved).Calls (OnlyEnqueues kind) fun _ => True := by
  cases resolved with
  | none => exact trivial
  | some place =>
      unfold takeCached
      refine calls_file (by simp) fun reply => ?_
      split
      · refine calls_file (by simp) fun reply => ?_
        refine calls_file (by simp) fun reply => ?_
        split
        · exact trivial
        have copies : (copyFileAtomically cachedPath place.1 place.2).Calls (OnlyEnqueues kind)
            fun _ => True := by
          unfold copyFileAtomically
          refine calls_file (by simp) fun reply => ?_
          split
          · exact trivial
          · exact replaceFile_enqueues _ _ _ _
        refine copies.bind fun copied _ => ?_
        split
        all_goals exact trivial
      · exact trivial

theorem targetIn_enqueues (dir : Path) (name : String → String) (suffix : String) :
    (targetIn dir name suffix).Calls (OnlyEnqueues kind) fun _ => True := by
  unfold targetIn
  refine calls_file (by simp) fun reply => ?_
  split
  all_goals exact trivial

theorem fetchImage_enqueues (rawURL providerID : String) (dir : Path) (name : String → String) :
    (fetchImage l rawURL providerID (targetIn dir name)).Calls (OnlyEnqueues kind)
      fun _ => True := by
  unfold fetchImage
  refine calls_ask (by simp) fun answer => ?_
  split
  · exact trivial
  split
  · exact trivial
  refine (targetIn_enqueues dir name _).bind fun resolved _ => ?_
  split
  · exact trivial
  refine (replaceFile_enqueues _ _ _ _).bind fun saved _ => ?_
  split
  all_goals exact trivial

theorem downloadImage_enqueues (rawURL providerID : String) (dir : Path)
    (name : String → String) :
    (downloadImage l rawURL providerID (targetIn dir name)).Calls (OnlyEnqueues kind)
      fun _ => True := by
  unfold downloadImage
  refine calls_ask (by simp) fun answer => ?_
  split
  · exact fetchImage_enqueues rawURL providerID dir name
  refine (targetIn_enqueues dir name _).bind fun resolved _ => ?_
  refine (takeCached_enqueues _ resolved).bind fun taken _ => ?_
  split
  · exact trivial
  · exact fetchImage_enqueues rawURL providerID dir name

theorem handlePullPage_enqueues (p : PullPagePayload) :
    (handlePullPage l p).Calls (OnlyEnqueues kind) fun _ => True := by
  unfold handlePullPage
  split
  · exact trivial
  refine calls_ask (by simp) fun valid => ?_
  split
  · exact trivial
  refine (downloadImage_enqueues _ _ _ _).bind fun handled _ => ?_
  split
  · refine (enqueues_of_uses (Reads.uses (Effects.getChapter_reads fun _ _ => trivial))).bind
      fun stored _ => ?_
    split
    · exact trivial
    refine calls_ask (by simp) fun downloadedAt => ?_
    refine (enqueues_of_uses (Effects.saveChapter_uses fun _ _ => trivial)).bind fun saved _ => ?_
    split
    all_goals exact trivial
  · exact trivial

theorem releaseCoverClaim_enqueues (mangaID : String) :
    (Effects.releaseCoverClaim l mangaID : PullEffect Bool).Calls (OnlyEnqueues kind)
      fun _ => True :=
  enqueues_of_uses (Effects.releaseCoverClaim_uses fun _ _ => trivial)

theorem getBindings_enqueues (mangaID : String) :
    (Effects.getBindings l mangaID : PullEffect (Option MangaBindings)).Calls (OnlyEnqueues kind)
      fun _ => True :=
  enqueues_of_uses (Reads.uses (Effects.getBindings_reads fun _ _ => trivial))

theorem coverProvider_enqueues (p : PullCoverPayload) :
    (coverProvider l p).Calls (OnlyEnqueues kind) fun _ => True := by
  unfold coverProvider
  split
  · exact trivial
  refine (getBindings_enqueues p.mangaID).bind fun stored _ => ?_
  split
  · exact trivial
  split
  · split
    all_goals exact trivial
  · exact trivial

theorem handlePullCover_enqueues (p : PullCoverPayload) :
    (handlePullCover l p).Calls (OnlyEnqueues kind) fun _ => True := by
  unfold handlePullCover
  split
  · exact trivial
  refine calls_ask (by simp) fun valid => ?_
  split
  · exact (releaseCoverClaim_enqueues p.mangaID).bind fun _ _ => trivial
  refine (coverProvider_enqueues p).bind fun providerID _ => ?_
  refine (downloadImage_enqueues _ _ _ _).bind fun handled _ => ?_
  split
  · refine (releaseCoverClaim_enqueues p.mangaID).bind fun released _ => ?_
    split
    all_goals exact trivial
  · exact (releaseCoverClaim_enqueues p.mangaID).bind fun _ _ => trivial

theorem pullNewChapters_enqueues (p : PullMangaPayload) (existing : List String) (now : Time)
    (chapters : List Chapter) :
    (pullNewChapters l p existing now chapters).Calls
      (OnlyEnqueues (PullPayload.manga p).Enqueues) fun _ => True := by
  induction chapters with
  | nil => exact trivial
  | cons ch chapters induction =>
      rw [pullNewChapters]
      split
      · exact induction
      refine (enqueues_of_uses (Effects.saveChapter_uses fun _ _ => trivial)).bind fun saved _ => ?_
      split
      · exact trivial
      have isChild : (PullPayload.manga p).Enqueues (.chapter ⟨p.mangaID, p.providerID, ch.id⟩) :=
        ⟨rfl, rfl⟩
      refine (enqueueChild_enqueues isChild).bind fun enqueued _ => ?_
      split
      · exact trivial
      · exact induction

theorem pullCover_enqueues (p : PullMangaPayload) :
    (pullCover l p).Calls (OnlyEnqueues (PullPayload.manga p).Enqueues) fun _ => True := by
  unfold pullCover
  split
  · exact trivial
  refine (enqueues_of_uses (Effects.claimCoverEnqueue_uses fun _ _ => trivial)).bind
    fun claimed _ => ?_
  split
  · exact trivial
  · exact trivial
  have isChild : (PullPayload.manga p).Enqueues (.cover ⟨p.mangaID, p.coverURL, p.providerID⟩) := rfl
  refine (enqueueChild_enqueues isChild).bind fun enqueued _ => ?_
  split
  · exact trivial
  · exact (releaseCoverClaim_enqueues p.mangaID).bind fun _ _ => trivial

theorem stampBindings_enqueues (p : PullMangaPayload) (now : Time) :
    (stampBindings l p now).Calls (OnlyEnqueues kind) fun _ => True := by
  unfold stampBindings
  refine (getBindings_enqueues p.mangaID).bind fun stored _ => ?_
  split
  · exact trivial
  split
  · exact trivial
  refine (enqueues_of_uses (Effects.saveBindings_uses fun _ _ => trivial)).bind fun saved _ => ?_
  split
  all_goals exact trivial

theorem handlePullManga_enqueues (p : PullMangaPayload) :
    (handlePullManga l p).Calls (OnlyEnqueues (PullPayload.manga p).Enqueues) fun _ => True := by
  unfold handlePullManga
  split
  · exact trivial
  refine calls_ask (by simp) fun hasContent => ?_
  split
  · exact trivial
  refine calls_ask (by simp) fun fetched => ?_
  split
  · exact trivial
  refine (enqueues_of_uses (Reads.uses (Effects.listChapters_reads
    (fun _ _ => ⟨trivial, fun _ => trivial⟩) fun _ _ _ _ => trivial))).bind fun listed _ => ?_
  split
  · exact trivial
  refine calls_ask (by simp) fun now => ?_
  refine (pullNewChapters_enqueues p _ now _).bind fun pulled _ => ?_
  split
  · exact trivial
  refine (pullCover_enqueues p).bind fun handled _ => ?_
  split
  · exact stampBindings_enqueues p now
  · exact trivial

theorem pullPages_enqueues (p : PullChapterPayload) (pages : List (Int × String)) :
    (pullPages p pages).Calls (OnlyEnqueues (PullPayload.chapter p).Enqueues) fun _ => True := by
  induction pages with
  | nil => exact trivial
  | cons page pages induction =>
      rcases page with ⟨index, url⟩
      rw [pullPages]
      have isChild : (PullPayload.chapter p).Enqueues
          (.page ⟨p.mangaID, p.providerID, p.chapterID, index, url⟩) := ⟨rfl, rfl, rfl⟩
      refine (enqueueChild_enqueues isChild).bind fun enqueued _ => ?_
      split
      · exact trivial
      · exact induction

theorem handlePullChapter_enqueues (encode : List PageItem → List UInt8) (p : PullChapterPayload) :
    (handlePullChapter l encode p).Calls (OnlyEnqueues (PullPayload.chapter p).Enqueues)
      fun _ => True := by
  unfold handlePullChapter
  split
  · exact trivial
  rename_i complete
  refine calls_ask (by simp) fun hasContent => ?_
  split
  · exact trivial
  refine (enqueues_of_uses (Reads.uses (Effects.getChapter_reads fun _ _ => trivial))).bind
    fun stored _ => ?_
  refine (getBindings_enqueues p.mangaID).bind fun bindings _ => ?_
  refine calls_ask (by simp) fun fetched => ?_
  split
  · exact trivial
  have named : p.mangaID ≠ "" := by
    rintro empty
    simp [PullChapterPayload.complete, empty] at complete
  refine (enqueues_of_uses (Effects.saveChapterPages_uses named fun _ _ => trivial)).bind
    fun saved _ => ?_
  split
  · exact trivial
  refine (pullPages_enqueues p _).bind fun pulled _ => ?_
  split
  all_goals exact trivial

/-- Whatever it is answered, a handler only enqueues jobs of its manga or chapter. -/
theorem handlePull_enqueues (encode : List PageItem → List UInt8) (payload : PullPayload) :
    (handlePull l encode payload).Calls (OnlyEnqueues payload.Enqueues) fun _ => True := by
  cases payload with
  | manga p => exact handlePullManga_enqueues p
  | chapter p => exact handlePullChapter_enqueues encode p
  | page p => exact handlePullPage_enqueues p
  | cover p => exact handlePullCover_enqueues p

end Children

/-! ## Quiet jobs -/

/-- A call that creates nothing at or below a directory, and no job. -/
def QuietCall (dir : Path) (c : FileCall Document PullQuestion) : Prop :=
  (∀ touch path, c.MayTouch touch → touch.made = some path → ¬ dir <+: path) ∧
    OnlyEnqueues (fun _ => False) c

/-- What is left of a handler creates nothing at or below a directory and no job, whatever
it is answered, and its job does not come back. -/
def Quiet (dir : Path) (rest : PullEffect Handled) : Prop :=
  rest.Calls (QuietCall dir) (· ≠ .failed)

namespace PullSystem

variable (l : Layout) (encode : List PageItem → List UInt8)

/-- A job that is pending or running, with what its worker still does. -/
def Outstanding (s : PullSystem) (job : PullJob) (rest : PullEffect Handled) : Prop :=
  job ∈ s.pending ∧ rest = handlePull l encode job.payload ∨ ⟨job, rest⟩ ∈ s.running

/-- A deletion falls when all jobs of what it deletes are quiet. -/
def DeletesQuietly (s : PullSystem) : Action → Prop
  | .delete deletion => ∀ dir job rest, deletion.dir l = .ok dir →
      s.Outstanding l encode job rest → deletion.Concerns l job.payload → Quiet dir rest
  | _ => True

/-- Where an outstanding job comes from. -/
inductive Origin (s : PullSystem) : PullJob → PullEffect Handled → Prop
  | stays {job rest} (before : s.Outstanding l encode job rest) : Origin s job rest
  | calls {job c next} (before : s.Outstanding l encode job (.call c next))
      (reply : c.Reply PullQuestion.Answer) : Origin s job (next reply)
  | retries {job} (before : s.Outstanding l encode job (.done .failed)) :
      Origin s job (handlePull l encode job.payload)
  | child {parent payload next}
      (before : s.Outstanding l encode parent (.call (.ask (.enqueueChild payload)) next)) :
      Origin s ⟨parent.request, payload⟩ (handlePull l encode payload)
  | requested (payload : PullPayload) :
      Origin s ⟨s.requests, payload⟩ (handlePull l encode payload)

/-- The requests after a step, and the events that it logs. -/
inductive Logs (s : PullSystem) : Action → Nat → List DiskEvent → Prop
  | nothing {action} : Logs s action s.requests []
  | request (payload) : Logs s (.request payload) (s.requests + 1) [.requested s.requests]
  | delete {deletion dir} (located : deletion.dir l = .ok dir) :
      Logs s (.delete deletion) s.requests [.deleted deletion dir]
  | call {position choice events} (job : PullJob) (c next)
      (before : s.Outstanding l encode job (.call c next))
      (creates : ∀ event ∈ events, ∃ touch path,
        c.MayTouch touch ∧ touch.made = some path ∧ event = .created job path) :
      Logs s (.call position choice) s.requests events

variable {l encode} {s next : PullSystem} {action : Action}

theorem mem_children {request : Nat} {c : FileCall Document PullQuestion}
    {reply : c.Reply PullQuestion.Answer} {job : PullJob} (member : job ∈ children request c reply) :
    ∃ payload, c = .ask (.enqueueChild payload) ∧ job = ⟨request, payload⟩ := by
  unfold children at member
  split at member
  · split at member
    · exact absurd member List.not_mem_nil
    · exact ⟨_, rfl, List.mem_singleton.mp member⟩
  · exact absurd member List.not_mem_nil

/-- What a step of the system can do. -/
theorem step_cases (taken : s.step l encode action = some next) :
    (∀ job rest, next.Outstanding l encode job rest → s.Origin l encode job rest) ∧
    ∃ events, s.Logs l encode action next.requests events ∧ next.history = events ++ s.history := by
  have same : ∀ {job rest} {pending : List PullJob} {running : List RunningJob},
      (∀ job ∈ pending, job ∈ s.pending) → (∀ job ∈ running, job ∈ s.running) →
      (job ∈ pending ∧ rest = handlePull l encode job.payload ∨ ⟨job, rest⟩ ∈ running) →
      s.Origin l encode job rest := by
    rintro job rest pending running fewer less (⟨member, rfl⟩ | member)
    · exact .stays (.inl ⟨fewer job member, rfl⟩)
    · exact .stays (.inr (less _ member))
  cases action with
  | request payload =>
      cases taken
      refine ⟨?_, _, .request payload, rfl⟩
      rintro job rest (⟨member, rfl⟩ | member)
      · rcases List.mem_append.mp member with before | new
        · exact .stays (.inl ⟨before, rfl⟩)
        · rw [List.mem_singleton.mp new]
          exact .requested payload
      · exact .stays (.inr member)
  | start position =>
      simp only [step] at taken
      split at taken
      · contradiction
      rename_i before job after focused
      cases taken
      have parts := focus_eq focused
      refine ⟨?_, [], .nothing, rfl⟩
      rintro other rest (⟨member, rfl⟩ | member)
      · refine .stays (.inl ⟨?_, rfl⟩)
        rw [parts]
        rcases List.mem_append.mp member with left | right
        · exact List.mem_append_left _ left
        · exact List.mem_append_right _ (List.mem_cons_of_mem _ right)
      · rcases List.mem_append.mp member with running | started
        · exact .stays (.inr running)
        · cases List.mem_singleton.mp started
          exact .stays (.inl ⟨by simp [parts], rfl⟩)
  | call position choice =>
      simp only [step, callNext] at taken
      split at taken
      · contradiction
      rename_i before job rest after focused
      have parts := focus_eq focused
      split at taken
      · contradiction
      rename_i c proceed
      have running : s.Outstanding l encode job (.call c proceed) := .inr (by simp [parts])
      split at taken
      · contradiction
      rename_i reply files responded
      cases taken
      refine ⟨?_, _, .call job c proceed running ?_, rfl⟩
      · rintro other rest (⟨member, rfl⟩ | member)
        · rcases List.mem_append.mp member with waiting | isChild
          · exact .stays (.inl ⟨waiting, rfl⟩)
          · rcases mem_children isChild with ⟨payload, rfl, rfl⟩
            exact .child running
        · rcases List.mem_append.mp member with left | right
          · exact .stays (.inr (by rw [parts]; exact List.mem_append_left _ left))
          · rcases List.mem_cons.mp right with new | right
            · cases new
              exact .calls running reply
            · exact .stays (.inr (by rw [parts]; simp [right]))
      · intro event member
        rcases List.mem_filterMap.mp member with ⟨touch, touched, logged⟩
        rcases Option.map_eq_some_iff.mp logged with ⟨path, made, rfl⟩
        refine ⟨touch, path, ?_, made, rfl⟩
        rcases Files.respond_cases responded with rfl | ⟨tree, new, rfl, effect⟩
        · exact absurd touched List.not_mem_nil
        · rw [Files.touch, Files.ofTree, List.append_nil] at touched
          exact (effect.touches touched).1
  | finish position retry =>
      simp only [step] at taken
      split at taken
      · rename_i before job handled after focused
        cases taken
        have parts := focus_eq focused
        refine ⟨?_, [], .nothing, rfl⟩
        rintro other rest (⟨member, rfl⟩ | member)
        · simp only at member
          split at member
          · rename_i again
            rcases List.mem_append.mp member with waiting | returned
            · exact .stays (.inl ⟨waiting, rfl⟩)
            · cases List.mem_singleton.mp returned
              simp only [Bool.and_eq_true, decide_eq_true_eq] at again
              rw [again.1] at parts
              exact .retries (.inr (by simp [parts]))
          · exact .stays (.inl ⟨member, rfl⟩)
        · refine .stays (.inr ?_)
          rw [parts]
          rcases List.mem_append.mp member with left | right
          · exact List.mem_append_left _ left
          · exact List.mem_append_right _ (List.mem_cons_of_mem _ right)
      · contradiction
  | cancel position =>
      simp only [step] at taken
      split at taken
      · contradiction
      rename_i before job after focused
      cases taken
      refine ⟨fun _ _ => same ?_ fun _ member => member, [], .nothing, rfl⟩
      intro other member
      rw [focus_eq focused]
      rcases List.mem_append.mp member with left | right
      · exact List.mem_append_left _ left
      · exact List.mem_append_right _ (List.mem_cons_of_mem _ right)
  | delete deletion =>
      simp only [step] at taken
      split at taken
      · cases taken
        exact ⟨fun _ _ before => .stays before, [], .nothing, rfl⟩
      · rename_i dir located
        cases taken
        exact ⟨fun _ _ before => .stays before, _, .delete located, rfl⟩
  | elsewhere tree =>
      cases taken
      exact ⟨fun _ _ before => .stays before, [], .nothing, rfl⟩

end PullSystem

/-! ## Deleted stays deleted -/

/-- An entry of a longer log that is not new is an old entry. -/
theorem split_append {Entry : Type} {new old later earlier : List Entry} {entry : Entry}
    (split : new ++ old = later ++ entry :: earlier) (isOld : entry ∉ new) :
    ∃ middle, later = new ++ middle ∧ old = middle ++ entry :: earlier := by
  rcases List.append_eq_append_iff.mp split with ⟨middle, rfl, rest⟩ | ⟨middle, rfl, rest⟩
  · exact ⟨middle, rfl, rest⟩
  · cases middle with
    | nil => exact ⟨[], by simp, by simpa using rest.symm⟩
    | cons other middle =>
        cases rest
        exact absurd (by simp) isOld

namespace PullSystem

variable {l : Layout} {encode : List PageItem → List UInt8}

/-- What every step keeps when deletions are quiet. -/
structure Settled (l : Layout) (encode : List PageItem → List UInt8) (s : PullSystem) : Prop where
  numbered : ∀ request, .requested request ∈ s.history → request < s.requests
  enqueues : ∀ job rest, s.Outstanding l encode job rest →
    rest.Calls (OnlyEnqueues job.payload.Enqueues) fun _ => True
  quiet : ∀ later deletion dir earlier, s.history = later ++ .deleted deletion dir :: earlier →
    ∀ job rest, s.Outstanding l encode job rest → deletion.Concerns l job.payload →
      .requested job.request ∈ earlier → Quiet dir rest
  stays : StaysDeleted l s.history

theorem settled_initial (disk : Disk) : (initial disk).Settled l encode where
  numbered _ member := nomatch member
  enqueues _ _ outstanding := by
    rcases outstanding with ⟨member, _⟩ | member
    · exact absurd member List.not_mem_nil
    · exact absurd member List.not_mem_nil
  quiet later deletion dir earlier split := by simp [initial] at split
  stays later deletion dir earlier split := by simp [initial] at split

/-- The outstanding jobs of something deleted, and of requests from before, stay quiet. -/
theorem Origin.quiet {s : PullSystem} (settled : s.Settled l encode) {deletion : Deletion}
    {dir : Path} {earlier : List DiskEvent} (known : ∀ event ∈ earlier, event ∈ s.history)
    (quiet : ∀ job rest, s.Outstanding l encode job rest → deletion.Concerns l job.payload →
      .requested job.request ∈ earlier → Quiet dir rest)
    {job : PullJob} {rest : PullEffect Handled} (origin : s.Origin l encode job rest)
    (concerns : deletion.Concerns l job.payload) (before : .requested job.request ∈ earlier) :
    Quiet dir rest := by
  cases origin with
  | stays outstanding => exact quiet _ _ outstanding concerns before
  | calls outstanding reply => exact (quiet _ _ outstanding concerns before).2 reply
  | retries outstanding => exact absurd rfl (quiet _ _ outstanding concerns before)
  | child outstanding =>
      -- a quiet parent has no children
      have isChild := (settled.enqueues _ _ outstanding).1 _ rfl
      have parent := quiet _ _ outstanding (Deletion.concerns_parent isChild concerns) before
      exact (parent.1.2 _ rfl).elim
  | requested payload => exact absurd (settled.numbered _ (known _ before)) (Nat.lt_irrefl _)

section Logged

variable {s : PullSystem} {action : Action} {count : Nat} {events : List DiskEvent}

/-- A deletion in the log after a step was there before, or the step is that deletion. -/
theorem Logs.deleted (logs : s.Logs l encode action count events) {later earlier : List DiskEvent}
    {deletion : Deletion} {dir : Path}
    (split : events ++ s.history = later ++ .deleted deletion dir :: earlier) :
    (∃ middle, later = events ++ middle ∧ s.history = middle ++ .deleted deletion dir :: earlier) ∨
      later = [] ∧ earlier = s.history ∧ action = .delete deletion ∧ deletion.dir l = .ok dir := by
  cases logs with
  | nothing => exact .inl (split_append split List.not_mem_nil)
  | request payload => exact .inl (split_append split (by simp))
  | call job c next before creates =>
      refine .inl (split_append split fun member => ?_)
      rcases creates _ member with ⟨_, _, _, _, other⟩
      contradiction
  | delete located =>
      cases later with
      | nil =>
          rw [List.nil_append, List.singleton_append] at split
          rcases List.cons.inj split with ⟨same, rfl⟩
          cases same
          exact .inr ⟨rfl, rfl, rfl, located⟩
      | cons event later =>
          rw [List.singleton_append, List.cons_append] at split
          rcases List.cons.inj split with ⟨rfl, same⟩
          exact .inl ⟨later, rfl, same⟩

theorem Logs.created (logs : s.Logs l encode action count events) {job : PullJob} {path : Path}
    (member : .created job path ∈ events) :
    ∃ c next touch, s.Outstanding l encode job (.call c next) ∧ c.MayTouch touch ∧
      touch.made = some path := by
  cases logs with
  | nothing => exact absurd member List.not_mem_nil
  | request payload => simp at member
  | delete located => simp at member
  | call job c next before creates =>
      rcases creates _ member with ⟨touch, _, may, made, same⟩
      cases same
      exact ⟨c, next, touch, before, may, made⟩

theorem Logs.requested (logs : s.Logs l encode action count events) {request : Nat}
    (member : .requested request ∈ events ∨ request < s.requests) : request < count := by
  cases logs with
  | nothing => exact member.resolve_left List.not_mem_nil
  | request payload =>
      rcases member with new | old
      · cases List.mem_singleton.mp new
        exact Nat.lt_succ_self _
      · exact Nat.lt_succ_of_lt old
  | delete located => exact member.resolve_left (by simp)
  | call job c next before creates =>
      refine member.resolve_left fun new => ?_
      rcases creates _ new with ⟨_, _, _, _, other⟩
      contradiction

end Logged

theorem settled_step (s : PullSystem) (action : Action) (next : PullSystem)
    (quietly : s.DeletesQuietly l encode action) (settled : s.Settled l encode)
    (taken : s.step l encode action = some next) : next.Settled l encode := by
  rcases step_cases taken with ⟨origin, events, logs, history⟩
  refine ⟨fun request member => ?_, fun job rest outstanding => ?_, ?_, ?_⟩
  · rw [history] at member
    exact logs.requested ((List.mem_append.mp member).imp_right (settled.numbered request))
  · cases origin job rest outstanding with
    | stays before => exact settled.enqueues _ _ before
    | calls before reply => exact (settled.enqueues _ _ before).2 reply
    | retries before => exact handlePull_enqueues encode _
    | child before => exact handlePull_enqueues encode _
    | requested payload => exact handlePull_enqueues encode payload
  · intro later deletion dir earlier split job rest outstanding concerns before
    rw [history] at split
    rcases logs.deleted split with ⟨middle, _, parts⟩ | ⟨_, rfl, rfl, located⟩
    · refine (origin job rest outstanding).quiet settled (fun event member => ?_)
        (settled.quiet middle deletion dir earlier parts) concerns before
      rw [parts]
      exact List.mem_append_right _ (List.mem_cons_of_mem _ member)
    · exact (origin job rest outstanding).quiet settled (fun _ member => member)
        (fun job rest before concerns _ => quietly dir job rest located before concerns)
        concerns before
  · intro later deletion dir earlier split job path member concerns before
    rw [history] at split
    rcases logs.deleted split with ⟨middle, rfl, parts⟩ | ⟨rfl, _⟩
    · rcases List.mem_append.mp member with isNew | isOld
      · rcases logs.created isNew with ⟨c, next, touch, outstanding, may, made⟩
        exact (settled.quiet _ _ _ _ parts _ _ outstanding concerns before).1.1 touch path may made
      · exact settled.stays middle deletion dir earlier parts job path isOld concerns before
    · exact absurd member List.not_mem_nil

/-- Whether nothing is pending and every handler has returned for good. -/
def allReturned (s : PullSystem) : Action → Bool
  | .delete _ => s.pending.isEmpty && s.running.all (·.rest matches .done .permanent)
  | _ => true

theorem deletesQuietly_of_allReturned {s : PullSystem} {action : Action}
    (returned : s.allReturned action = true) : s.DeletesQuietly l encode action := by
  cases action with
  | delete deletion =>
      simp only [allReturned, Bool.and_eq_true, List.isEmpty_iff, List.all_eq_true] at returned
      rintro dir job rest located (⟨member, _⟩ | member) concerns
      · rw [returned.1] at member
        exact absurd member List.not_mem_nil
      · have isDone := returned.2 _ member
        split at isDone
        · rename_i same
          rw [show rest = .done .permanent from same]
          exact fun other => nomatch other
        · contradiction
  | _ => exact trivial

def examplePage : PullPagePayload where
  mangaID := "m"
  providerID := "p"
  chapterID := "c"
  pageIndex := 0
  pageURL := "https://example.org/0.jpg"

/-- A worker that runs the page job up to the directory of the chapter. -/
def downloadsPage (position : Nat) : List Action :=
  [.start position,
    .call position (.answer (.validateURL examplePage.pageURL) true),
    .call position (.answer (.cached examplePage.pageURL) none),
    .call position (.answer (.fetch examplePage.pageURL "p") (some ⟨200, "image/jpeg", []⟩)),
    .call position (.grant "")]

end PullSystem

end Kiyomi.Queue
