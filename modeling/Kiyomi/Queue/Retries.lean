import Kiyomi.Queue.InMemory.Retries
import Kiyomi.Queue.Sqlite.Retries

namespace Kiyomi.Queue

open Go

/-! # Retries in both drivers -/

/-- In memory the runs of a job obey the law under every interleaving. In the database they
do when the `Enqueue` of the job comes before a tick claims it. -/
theorem retryLaw_of_enqueueFindsPending {job : Job} (outcomes : Nat → Option HandlerError)
    (pending : job.status = .pending) (unretried : job.retries = 0) {handlers : List String}
    (registered : handlers.contains job.type = true) :
    (∀ (bufferSize : ℕ+) (actions : List InMemory.Action) (last : InMemory.Tracked),
      Run (InMemory.Tracked.step job.id) (InMemory.Tracked.LeftAlone job outcomes)
        (.boot bufferSize handlers) actions last → last.Lawful job outcomes) ∧
    (∀ (groupLimits : String → Option Int) (maxConcurrency : Int)
      (actions : List Sqlite.Tracked.Step) (last : Sqlite.Tracked),
      Run (Sqlite.Tracked.step job.id)
        (fun s action => s.LeftAlone job outcomes action ∧ s.EnqueueFindsPending job action)
        (.boot handlers groupLimits maxConcurrency) actions last → last.Lawful job outcomes) := by
  constructor
  · intro bufferSize actions last run
    exact InMemory.Tracked.lawful_of_leftAlone bufferSize registered pending unretried run
  · intro groupLimits maxConcurrency actions last run
    exact Sqlite.Tracked.lawful_of_enqueueFindsPending groupLimits maxConcurrency registered unretried run

def pageJob : Job := .child "page-1" none "pull_page" "{}" "" [] Time.zero

/-- The first run fails, the second succeeds. -/
def failsOnce : Nat → Option HandlerError
  | 0 => some { message := "timeout", permanent := false }
  | _ => none

theorem retryLaw_of_enqueueFindsPending_failing_once :
    ∃ (memory : InMemory.Tracked) (database : Sqlite.Tracked),
      memory.started = 2 ∧ memory.Lawful pageJob failsOnce ∧
      database.finished = 2 ∧ database.Lawful pageJob failsOnce := by
  have laws := @retryLaw_of_enqueueFindsPending pageJob failsOnce rfl rfl ["pull_page"] (by decide)
  have memoryRun : ∃ last : InMemory.Tracked, last.started = 2 ∧
      Run (InMemory.Tracked.step pageJob.id) (InMemory.Tracked.LeftAlone pageJob failsOnce)
        (.boot 1 ["pull_page"])
        [.createJob pageJob, .enqueue pageJob, .send 0, .receive, .claim Time.zero,
          .returnHandler (failsOnce 0) Time.zero, .reenqueue, .workerSend, .receive,
          .claim Time.zero] last :=
    ⟨_, rfl, .cons (fun _ => rfl) rfl <| .cons (fun _ => ⟨rfl, rfl⟩) rfl <|
      .cons trivial rfl <| .cons trivial rfl <| .cons trivial rfl <|
      .cons (fun _ => rfl) rfl <| .cons trivial rfl <| .cons trivial rfl <|
      .cons trivial rfl <| .cons trivial rfl <| .nil _⟩
  have databaseRun : ∃ last : Sqlite.Tracked, last.finished = 2 ∧
      Run (Sqlite.Tracked.step pageJob.id)
        (fun s action => s.LeftAlone pageJob failsOnce action ∧ s.EnqueueFindsPending pageJob action)
        (.boot ["pull_page"] (fun _ => none) 2)
        [.queue (.createJob pageJob), .queue (.enqueue 0 Time.zero),
          .queue (.pollAndDispatch (.quiet Time.zero)), .queue (.startHandler 0),
          .queue (.finishHandler 0 (failsOnce 0)), .queue (.finalizeJob 0 Time.zero false),
          .queue (.pollAndDispatch (.quiet Time.zero)), .queue (.startHandler 0),
          .queue (.finishHandler 0 none), .queue (.finalizeJob 0 Time.zero false)] last :=
    ⟨_, rfl, .cons ⟨fun _ => rfl, trivial⟩ rfl <|
      .cons ⟨trivial, fun _ _ _ _ _ => rfl⟩ rfl <|
      .cons ⟨trivial, trivial⟩ rfl <| .cons ⟨trivial, trivial⟩ rfl <|
      .cons ⟨fun _ _ _ _ _ => rfl, trivial⟩ rfl <| .cons ⟨rfl, trivial⟩ rfl <|
      .cons ⟨trivial, trivial⟩ rfl <| .cons ⟨trivial, trivial⟩ rfl <|
      .cons ⟨fun _ _ _ _ _ => rfl, trivial⟩ rfl <| .cons ⟨rfl, trivial⟩ rfl <| .nil _⟩
  rcases memoryRun with ⟨memory, started, memoryRun⟩
  rcases databaseRun with ⟨database, finished, databaseRun⟩
  exact ⟨memory, database, started, laws.1 _ _ _ memoryRun, finished,
    laws.2 _ _ _ _ databaseRun⟩

/-- A tick claims the job between its `CreateJob` and its `Enqueue`, which makes the
completed row pending again: the job is not terminal after its whole run. -/
theorem enqueue_revives_completed_job :
    ¬ ∀ (actions : List Sqlite.Tracked.Step) (last : Sqlite.Tracked),
      Run (Sqlite.Tracked.step pageJob.id) (Sqlite.Tracked.LeftAlone pageJob fun _ => none)
        (.boot ["pull_page"] (fun _ => none) 2) actions last →
      last.Lawful pageJob fun _ => none := by
  intro claimed
  have revived : ∃ (last : Sqlite.Tracked) (row : Sqlite.Row),
      last.system.driver.db.jobs.find? pageJob.id = some row ∧ last.started pageJob.id = 2 ∧
      Run (Sqlite.Tracked.step pageJob.id) (Sqlite.Tracked.LeftAlone pageJob fun _ => none)
        (.boot ["pull_page"] (fun _ => none) 2)
        [.queue (.createJob pageJob), .queue (.pollAndDispatch (.quiet Time.zero)),
          .queue (.startHandler 0), .queue (.finishHandler 0 none),
          .queue (.finalizeJob 0 Time.zero false), .queue (.enqueue 0 Time.zero),
          .queue (.pollAndDispatch (.quiet Time.zero)), .queue (.startHandler 0),
          .queue (.finishHandler 0 none), .queue (.finalizeJob 0 Time.zero false)] last :=
    ⟨_, _, rfl, rfl, .cons (fun _ => rfl) rfl <| .cons trivial rfl <| .cons trivial rfl <|
      .cons (fun _ _ _ _ _ => rfl) rfl <| .cons rfl rfl <| .cons trivial rfl <|
      .cons trivial rfl <| .cons trivial rfl <| .cons (fun _ _ _ _ _ => rfl) rfl <|
      .cons rfl rfl <| .nil _⟩
  rcases revived with ⟨last, row, found, started, run⟩
  have lawful := claimed _ last run
  unfold Sqlite.Tracked.Lawful at lawful
  rw [found, started] at lawful
  have goesOn := lawful.within 0 (by decide)
  contradiction

end Kiyomi.Queue
