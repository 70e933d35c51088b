import Kiyomi.Queue.PullCompleteness
import Mathlib.Algebra.GroupWithZero.Nat

namespace Kiyomi.Queue

open Go Library

/-! # Concurrent runs of `pull_manga`

Each run fetches its chapter list alone and goes through the rest of `HandlePullManga` with
the lock of its manga. The steps of the run that has the lock are those of `PullManga`. -/

/-- `fnv.New32a` over the bytes of a string. -/
def fnv32a (s : String) : UInt32 :=
  s.toUTF8.data.toList.foldl (fun hash byte => (hash ^^^ byte.toUInt32) * 16777619) 2166136261

example : fnv32a "foobar" = 0xbf9cf968 := by decide +kernel

/-- `getMangaLock`: which of the striped locks a manga has. -/
def getMangaLock (mangaID : String) : Nat := (fnv32a mangaID).toNat % 64

/-- A `pull_manga` job and the list that `FetchChapters` returns to it. -/
structure PullMangaJob where
  jobID : String
  payload : PullMangaPayload
  upstream : List Chapter

inductive FanOutRun
  | fetching (job : PullMangaJob)
  /-- Has its list and waits for the lock. -/
  | waiting (job : PullMangaJob)
  | holding (pull : PullManga)
  /-- Has returned, with or without an error. -/
  | left (pull : PullManga)

structure FanOut where
  disk : Disk
  runs : List FanOutRun

/-- The steps of the run at a position. -/
inductive FanOutAction
  | fetch (position : Nat)
  | fetchFails (position : Nat)
  | lock (position : Nat) (now : Time)
  | inside (position : Nat) (action : PullAction)

namespace PullMangaJob

/-- The job as it enters its section. -/
def enter (job : PullMangaJob) (disk : Disk) : PullManga :=
  .queued job.jobID job.payload job.upstream disk

end PullMangaJob

namespace FanOutRun

def job : FanOutRun → PullMangaJob
  | fetching job | waiting job => job
  | holding pull | left pull => ⟨pull.jobID, pull.payload, pull.upstream⟩

/-- The deferred `Unlock`: a run that returns gives its lock back. -/
def settle (pull : PullManga) : FanOutRun :=
  match pull.point with
  | .returned _ => left pull
  | _ => holding pull

def holds : FanOutRun → Bool
  | holding _ => true
  | _ => false

/-- The run if it has returned. -/
def done : FanOutRun → Option PullManga
  | left pull => some pull
  | _ => none

/-- The child jobs that the run has enqueued. -/
def enqueued : FanOutRun → List ChildJob
  | holding pull | left pull => pull.enqueued
  | _ => []

/-- Whether the run has not returned an error. -/
def isFine : FanOutRun → Bool
  | left pull => pull.point == .returned true
  | _ => true

end FanOutRun

namespace FanOut

def start (disk : Disk) (jobs : List PullMangaJob) : FanOut where
  disk
  runs := jobs.map .fetching

def isFree (s : FanOut) (lock : Nat) : Bool :=
  s.runs.all fun run => !(run.holds && getMangaLock run.job.payload.mangaID == lock)

/-- The child jobs that all runs together have enqueued. -/
def enqueued (s : FanOut) : List ChildJob := s.runs.flatMap FanOutRun.enqueued

def finished (s : FanOut) : Bool := s.runs.all fun run => run.done.isSome

variable (l : Layout)

def step : StepFunction FanOut FanOutAction
  | s, .fetch position =>
      match focus position s.runs with
      | some (before, .fetching job, after) =>
          some { s with runs := before ++ .waiting job :: after }
      | _ => none
  | s, .fetchFails position =>
      match focus position s.runs with
      | some (before, .fetching job, after) =>
          some { s with runs := before ++ .left (job.enter s.disk) :: after }
      | _ => none
  | s, .lock position now =>
      match focus position s.runs with
      | some (before, .waiting job, after) =>
          if s.isFree (getMangaLock job.payload.mangaID) then
            (PullManga.step l (job.enter s.disk) (.start now)).map fun pull =>
              ⟨pull.disk, before ++ .settle pull :: after⟩
          else none
      | _ => none
  | s, .inside position action =>
      match focus position s.runs with
      | some (before, .holding pull, after) =>
          (PullManga.step l { pull with disk := s.disk } action).map fun pull =>
            ⟨pull.disk, before ++ .settle pull :: after⟩
      | _ => none

/-- No operation of the step fails: one that does ends its run with an error. -/
def succeeds (s : FanOut) (action : FanOutAction) : Bool :=
  ((step l s action).map fun s' => s'.runs.all FanOutRun.isFine).getD true

/-! ## What a step does -/

inductive Moved (l : Layout) (s : FanOut) : FanOut → Prop
  | fetched {before job after} (at_ : s.runs = before ++ .fetching job :: after) :
      Moved l s { s with runs := before ++ .waiting job :: after }
  | fetchFailed {before job after} (at_ : s.runs = before ++ .fetching job :: after) :
      Moved l s { s with runs := before ++ .left (job.enter s.disk) :: after }
  | locked {before job after now pull} (at_ : s.runs = before ++ .waiting job :: after)
      (free : s.isFree (getMangaLock job.payload.mangaID) = true)
      (moved : PullManga.Moved l (job.enter s.disk) (.start now) pull) :
      Moved l s ⟨pull.disk, before ++ .settle pull :: after⟩
  | inside {before pull after action pull'} (at_ : s.runs = before ++ .holding pull :: after)
      (moved : PullManga.Moved l { pull with disk := s.disk } action pull') :
      Moved l s ⟨pull'.disk, before ++ .settle pull' :: after⟩

variable {l}

theorem step_moved {s s' : FanOut} {action : FanOutAction} (taken : step l s action = some s') :
    Moved l s s' := by
  cases action with
  | fetch position =>
      simp only [step] at taken
      split at taken
      · rename_i focused
        cases taken
        exact .fetched (focus_eq focused)
      · contradiction
  | fetchFails position =>
      simp only [step] at taken
      split at taken
      · rename_i focused
        cases taken
        exact .fetchFailed (focus_eq focused)
      · contradiction
  | lock position now =>
      simp only [step] at taken
      split at taken
      · rename_i focused
        split at taken
        · rename_i free
          rcases Option.map_eq_some_iff.mp taken with ⟨pull, entered, rfl⟩
          exact .locked (focus_eq focused) free (PullManga.step_moved entered)
        · contradiction
      · contradiction
  | inside position action =>
      simp only [step] at taken
      split at taken
      · rename_i focused
        rcases Option.map_eq_some_iff.mp taken with ⟨pull', went, rfl⟩
        exact .inside (focus_eq focused) (PullManga.step_moved went)
      · contradiction

/-- A run inside its section has not returned. -/
def Inside (s : FanOut) : Prop := ∀ pull, .holding pull ∈ s.runs → ∀ ok, pull.point ≠ .returned ok

end FanOut

theorem FanOutRun.settle_eq_holding {pull pull' : PullManga}
    (held : settle pull = .holding pull') : pull' = pull ∧ ∀ ok, pull.point ≠ .returned ok := by
  unfold settle at held
  split at held
  · contradiction
  · rename_i inside
    cases held
    exact ⟨rfl, fun ok returned => inside ok returned⟩

namespace FanOut

variable {l : Layout} {s s' : FanOut}

theorem inside_start (disk : Disk) (jobs : List PullMangaJob) : (start disk jobs).Inside := by
  intro pull held
  simp [start] at held

theorem Inside.step (inside : s.Inside) (moved : Moved l s s') : s'.Inside := by
  have others : ∀ {before after : List FanOutRun} {old new : FanOutRun},
      s.runs = before ++ old :: after →
      (∀ pull, new = .holding pull → ∀ ok, pull.point ≠ .returned ok) →
      ∀ pull, .holding pull ∈ before ++ new :: after → ∀ ok, pull.point ≠ .returned ok := by
    intro before after old new at_ own pull held
    rw [List.mem_append, List.mem_cons] at held
    rcases held with left | same | right
    · exact inside pull (by simp [at_, left])
    · exact own pull same.symm
    · exact inside pull (by simp [at_, right])
  have settled : ∀ {pull pull' : PullManga}, FanOutRun.settle pull = .holding pull' →
      ∀ ok, pull'.point ≠ .returned ok := by
    intro pull pull' held
    rcases FanOutRun.settle_eq_holding held with ⟨rfl, running⟩
    exact running
  cases moved with
  | fetched at_ => exact others at_ (by simp)
  | fetchFailed at_ => exact others at_ (by simp)
  | locked at_ => exact others at_ fun _ held => settled held
  | inside at_ => exact others at_ fun _ held => settled held

/-! ## Every interleaving ends -/

end FanOut

/-- The most steps that are left at a point. -/
def PullResume.stepsLeft : PullResume → Nat
  | .nextChapter _ chapters => 3 * chapters.length + 5
  | .stampBindings => 1

def PullPoint.stepsLeft : PullPoint → Nat
  | .loop _ chapters => 3 * chapters.length + 5
  | .creating _ resume => resume.stepsLeft + 2
  | .enqueuing _ resume => resume.stepsLeft + 1
  | .coverClaim => 4
  | .bindings => 1
  | .returned _ => 0

@[simp] theorem PullResume.stepsLeft_point (resume : PullResume) :
    resume.point.stepsLeft = resume.stepsLeft := by
  cases resume <;> rfl

theorem PullManga.Moved.stepsLeft_lt {l : Layout} {pull pull' : PullManga} {action : PullAction}
    (moved : PullManga.Moved l pull action pull') (inside : ∀ ok, pull.point ≠ .returned ok) :
    pull'.point.stepsLeft < pull.point.stepsLeft := by
  have positive : 0 < pull.point.stepsLeft := by
    cases point : pull.point with
    | returned ok => exact absurd point (inside ok)
    | loop | creating | enqueuing | coverClaim | bindings => simp [PullPoint.stepsLeft]
  cases moved with
  | started point => exact absurd point (inside _)
  | failed => exact positive
  | childFailed => exact positive
  | skipped point => simp [point, PullPoint.stepsLeft]
  | saved point => simp [point, PullPoint.stepsLeft, PullResume.stepsLeft]; omega
  | created point => simp [point, PullPoint.stepsLeft]
  | @enqueued child resume point =>
      rw [point]
      exact (PullResume.stepsLeft_point resume).trans_lt (Nat.lt_succ_self _)
  | chaptersDone point => simp [point, PullPoint.stepsLeft]
  | coverDone point => simp [point, PullPoint.stepsLeft]
  | coverClaimed point => simp [point, PullPoint.stepsLeft, PullResume.stepsLeft]
  | stamped point => simp [point, PullPoint.stepsLeft]

/-- Taking the lock ends in the section or with an error. -/
theorem PullManga.Moved.entered {l : Layout} {job : PullMangaJob} {disk : Disk} {now : Time}
    {pull : PullManga} (moved : PullManga.Moved l (job.enter disk) (.start now) pull) :
    pull.point = .returned false ∨ ∃ existing, pull.point = .loop existing job.upstream := by
  cases moved with
  | started => exact .inr ⟨_, rfl⟩
  | failed => exact .inl rfl
  | childFailed => exact .inl rfl

def FanOutRun.stepsLeft : FanOutRun → Nat
  | fetching job => 3 * job.upstream.length + 7
  | waiting job => 3 * job.upstream.length + 6
  | holding pull => pull.point.stepsLeft
  | left _ => 0

@[simp] theorem FanOutRun.stepsLeft_settle (pull : PullManga) :
    (settle pull).stepsLeft = pull.point.stepsLeft := by
  cases point : pull.point <;> simp [settle, point, stepsLeft, PullPoint.stepsLeft]

namespace FanOut

def stepsLeft (s : FanOut) : Nat := (s.runs.map FanOutRun.stepsLeft).sum

theorem Moved.stepsLeft_lt (inside : s.Inside) (moved : Moved l s s') :
    s'.stepsLeft < s.stepsLeft := by
  have replaced : ∀ {before after : List FanOutRun} {old new : FanOutRun} {disk : Disk},
      s.runs = before ++ old :: after → new.stepsLeft < old.stepsLeft →
      stepsLeft ⟨disk, before ++ new :: after⟩ < s.stepsLeft := by
    intro before after old new disk at_ lighter
    simp only [stepsLeft, at_, List.map_append, List.map_cons, List.sum_append, List.sum_cons]
    omega
  cases moved with
  | fetched at_ => exact replaced at_ (by simp [FanOutRun.stepsLeft])
  | fetchFailed at_ => exact replaced at_ (by simp [FanOutRun.stepsLeft])
  | locked at_ _ moved =>
      apply replaced at_
      rw [FanOutRun.stepsLeft_settle]
      rcases moved.entered with failed | ⟨existing, entered⟩
      · simp [failed, PullPoint.stepsLeft, FanOutRun.stepsLeft]
      · simp [entered, PullPoint.stepsLeft, FanOutRun.stepsLeft]
  | @inside before pull after action pull' at_ moved =>
      apply replaced at_
      rw [FanOutRun.stepsLeft_settle]
      exact moved.stepsLeft_lt (inside pull (by simp [at_]))

theorem length_le_stepsLeft {guard : FanOut → FanOutAction → Prop} {actions : List FanOutAction}
    (run : Run (step l) guard s actions s') (inside : s.Inside) : actions.length ≤ s.stepsLeft := by
  induction run with
  | nil => exact Nat.zero_le _
  | cons _ taken _ induction =>
      have moved := step_moved taken
      have rest := induction (inside.step moved)
      have lighter := moved.stepsLeft_lt inside
      rw [List.length_cons]
      omega

end FanOut

/-! ## No interleaving gets stuck -/

/-- The action tries an operation, which may succeed. -/
def PullAction.attempts : PullAction → Bool
  | .start _ | .nextChapter | .createJob | .enqueue | .claimCover | .stampBindings => true
  | .startFails | .saveChapterFails _ | .createJobFails _ | .enqueueFails _ | .claimCoverFails _
  | .stampBindingsFails _ => false

def FanOutAction.attempts : FanOutAction → Bool
  | .fetch _ | .lock .. => true
  | .fetchFails _ => false
  | .inside _ action => action.attempts

theorem PullManga.exists_attempt (l : Layout) {pull : PullManga}
    (inside : ∀ ok, pull.point ≠ .returned ok) :
    ∃ action : PullAction, action.attempts = true ∧ (PullManga.step l pull action).isSome := by
  cases point : pull.point with
  | loop existing chapters =>
      refine ⟨.nextChapter, rfl, ?_⟩
      cases chapters with
      | nil => simp [PullManga.step, point]
      | cons ch chapters =>
          simp only [PullManga.step, point]
          repeat' split
          all_goals rfl
  | creating child resume => exact ⟨.createJob, rfl, by simp [PullManga.step, point]⟩
  | enqueuing child resume => exact ⟨.enqueue, rfl, by simp [PullManga.step, point]⟩
  | coverClaim =>
      refine ⟨.claimCover, rfl, ?_⟩
      simp only [PullManga.step, point]
      repeat' split
      all_goals rfl
  | bindings =>
      refine ⟨.stampBindings, rfl, ?_⟩
      simp only [PullManga.step, point]
      repeat' split
      all_goals rfl
  | returned ok => exact absurd point (inside ok)

theorem PullManga.start_isSome (l : Layout) {pull : PullManga} {ok : Bool}
    (point : pull.point = .returned ok) (now : Time) :
    (PullManga.step l pull (.start now)).isSome := by
  simp only [PullManga.step, point]
  repeat' split
  all_goals rfl

namespace FanOut

theorem exists_attempt (l : Layout) (inside : s.Inside) (unfinished : s.finished = false) :
    ∃ action : FanOutAction, action.attempts = true ∧ (step l s action).isSome := by
  by_cases held : ∃ pull, FanOutRun.holding pull ∈ s.runs
  · rcases held with ⟨pull, member⟩
    rcases List.append_of_mem member with ⟨before, after, at_⟩
    rcases @PullManga.exists_attempt l { pull with disk := s.disk } (inside pull member) with
      ⟨action, attempts, taken⟩
    refine ⟨.inside before.length action, attempts, ?_⟩
    simp only [step, at_, focus_length, Option.isSome_map]
    exact taken
  · have free : ∀ lock, s.isFree lock = true := by
      intro lock
      rw [isFree, List.all_eq_true]
      intro run member
      cases run with
      | holding pull => exact absurd ⟨pull, member⟩ held
      | fetching | waiting | left => rfl
    rw [finished, List.all_eq_false] at unfinished
    rcases unfinished with ⟨run, member, going⟩
    rcases List.append_of_mem member with ⟨before, after, at_⟩
    cases run with
    | fetching job => exact ⟨.fetch before.length, rfl, by simp [step, at_, focus_length]⟩
    | waiting job =>
        refine ⟨.lock before.length Time.zero, rfl, ?_⟩
        simp only [step, at_, focus_length]
        rw [if_pos (free _), Option.isSome_map]
        exact PullManga.start_isSome l rfl _
    | holding pull => exact absurd ⟨pull, member⟩ held
    | left pull => simp [FanOutRun.done] at going

end FanOut

end Kiyomi.Queue
