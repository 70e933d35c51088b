import Kiyomi.Go.Time

namespace Kiyomi.Queue

open Go

inductive JobStatus
  | pending
  | running
  | completed
  | failed
  deriving DecidableEq, Repr

/-- The stored text of a status. -/
def JobStatus.text : JobStatus → String
  | .pending => "pending"
  | .running => "running"
  | .completed => "completed"
  | .failed => "failed"

@[simp] theorem JobStatus.text_inj {left right : JobStatus} :
    left.text = right.text ↔ left = right := by
  cases left <;> cases right <;> decide

@[simp] theorem JobStatus.text_ne_empty (status : JobStatus) : status.text ≠ "" := by
  cases status <;> decide

/-- A job that a worker still has to run or is running. -/
def JobStatus.isLive : JobStatus → Bool
  | .pending | .running => true
  | .completed | .failed => false

structure Job where
  id : String
  parentID : Option String
  type : String
  payload : String
  status : JobStatus
  retries : Int
  maxRetries : Int
  concurrencyGroup : String
  error : String
  createdAt : Time
  updatedAt : Time
  startedAt : Option Time
  completedAt : Option Time
  childCount : Nat
  metadata : List (String × String)
  deriving DecidableEq, Repr

/-- The job that `enqueueChild` builds under a new id. -/
def Job.child (id : String) (parentID : Option String) (type payload group : String)
    (metadata : List (String × String)) (now : Time) : Job where
  id
  parentID
  type
  payload
  status := .pending
  retries := 0
  maxRetries := 3
  concurrencyGroup := group
  error := ""
  createdAt := now
  updatedAt := now
  startedAt := none
  completedAt := none
  childCount := 0
  metadata

/-- A job with an empty concurrency group belongs to no group. -/
def Job.inGroup (group : String) (job : Job) : Bool :=
  group != "" && job.concurrencyGroup == group

/-- The empty string in a filter stands for no condition. -/
structure JobFilter where
  status : String
  type : String
  metadata : List (String × String)
  parentID : Option String
  all : Bool

/-- All jobs of one status, children included. -/
def JobFilter.ofStatus (status : String) : JobFilter where
  status
  type := ""
  metadata := []
  parentID := none
  all := true

structure CleanupOptions where
  completedTTL : Int
  failedTTL : Int
  batchSize : Int

/-- The `LIMIT` of a clean-up. -/
def CleanupOptions.limit (options : CleanupOptions) : Nat :=
  if options.batchSize ≤ 0 then 500 else options.batchSize.toNat

/-- What a handler's error tells the worker: its text and whether
`queue.IsPermanent` holds of it. -/
structure HandlerError where
  message : String
  permanent : Bool
  deriving DecidableEq, Repr

/-- The sentinel errors of the drivers and the failures of their storage. -/
inductive DriverError
  | jobNotFound
  | alreadyExists
  deriving DecidableEq, Repr

/-! The operations of `queue.JobStore` that the API handlers and the retention
code use. An operation that never returns has no outcome. -/

structure JobStore (Store : Type) where
  listJobs : Store → JobFilter → List Job
  deleteJob : Store → String → Option (Except DriverError Store)

end Kiyomi.Queue
