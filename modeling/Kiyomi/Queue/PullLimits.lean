import Mathlib.Algebra.Ring.Rat
import Kiyomi.Queue.PullManga
import Kiyomi.Queue.Sqlite.SlotLimits

namespace Kiyomi.Queue

open Go Sqlite

/-! # The limits of the pull pipeline

`ApplyPullGroupLimits` runs once, before the worker starts: one bucket for all covers and
one for each content provider. -/

structure RateLimitHint where
  requestsPerSecond : Rat
  requestsPerMinute : Rat

/-- What `ApplyPullGroupLimits` asks a content provider. -/
structure ContentHint where
  id : String
  rateLimit : RateLimitHint

def defaultCoverGroupLimit : Int := 4

def defaultContentGroupLimit : Int := 8

def maxContentGroupLimit : Int := 16

def contentBurstMultiplier : Rat := 2

/-- `int(value)` for a positive float. What it is when no `int` holds the value is up to
the implementation. -/
def truncate (unrepresentable : Rat → Int) (value : Rat) : Int :=
  if value < 2 ^ 63 then value.floor else unrepresentable value

def computeContentGroupLimit (unrepresentable : Rat → Int) (hint : RateLimitHint) : Int :=
  if hint.requestsPerSecond ≤ 0 then defaultContentGroupLimit
  else
    let n := truncate unrepresentable (hint.requestsPerSecond * contentBurstMultiplier)
    let n := if n < 1 then 1 else n
    if n > maxContentGroupLimit then maxContentGroupLimit else n

/-- One turn of the loop; a nil provider is skipped. -/
def limitProvider (unrepresentable : Rat → Int) (worker : Driver) :
    Option ContentHint → Driver
  | none => worker
  | some p =>
      worker.setGroupLimit (pullGroup p.id)
        (computeContentGroupLimit unrepresentable p.rateLimit)

def applyPullGroupLimits (unrepresentable : Rat → Int) (worker : Driver)
    (providers : List (Option ContentHint)) : Driver :=
  providers.foldl (limitProvider unrepresentable)
    (worker.setGroupLimit coverConcurrencyGroup defaultCoverGroupLimit)

theorem computeContentGroupLimit_bounds (unrepresentable : Rat → Int) (hint : RateLimitHint) :
    0 < computeContentGroupLimit unrepresentable hint ∧
      computeContentGroupLimit unrepresentable hint ≤ maxContentGroupLimit := by
  unfold computeContentGroupLimit
  simp only [defaultContentGroupLimit, maxContentGroupLimit]
  split
  · decide
  · split <;> split <;> omega

theorem pullGroup_inj {left right : String} : pullGroup left = pullGroup right ↔ left = right :=
  String.append_right_inj "pull:"

/-- The bucket of the covers is the one that a provider called `cover` would have. -/
theorem coverConcurrencyGroup_eq : coverConcurrencyGroup = pullGroup "cover" := rfl

section

variable (unrepresentable : Rat → Int)

/-- The loop moves nothing but limits. -/
theorem foldl_limitProvider (worker : Driver) (providers : List (Option ContentHint)) :
    ∃ groupLimits, providers.foldl (limitProvider unrepresentable) worker =
      { worker with groupLimits } := by
  induction providers generalizing worker with
  | nil => exact ⟨worker.groupLimits, rfl⟩
  | cons provider providers induction =>
      rcases induction (limitProvider unrepresentable worker provider) with ⟨groupLimits, same⟩
      refine ⟨groupLimits, ?_⟩
      rw [List.foldl_cons, same]
      cases provider <;> rfl

theorem foldl_limitProvider_of_ne {id : String} {providers : List (Option ContentHint)}
    (others : ∀ p, some p ∈ providers → p.id ≠ id) (worker : Driver) :
    (providers.foldl (limitProvider unrepresentable) worker).groupLimits (pullGroup id) =
      worker.groupLimits (pullGroup id) := by
  induction providers generalizing worker with
  | nil => rfl
  | cons provider providers induction =>
      rw [List.foldl_cons, induction fun p member => others p (List.mem_cons_of_mem _ member)]
      cases provider with
      | none => rfl
      | some p =>
          have different : pullGroup id ≠ pullGroup p.id := fun same =>
            others p List.mem_cons_self (pullGroup_inj.mp same).symm
          exact Driver.setGroupLimit_of_ne worker _ different

/-- Of several providers under one id the last one counts. -/
theorem foldl_limitProvider_of_last {before after : List (Option ContentHint)} {p : ContentHint}
    (isLast : ∀ q, some q ∈ after → q.id ≠ p.id) (worker : Driver) :
    ((before ++ some p :: after).foldl (limitProvider unrepresentable) worker).groupLimits
        (pullGroup p.id) = some (computeContentGroupLimit unrepresentable p.rateLimit) := by
  rw [List.foldl_append, List.foldl_cons, foldl_limitProvider_of_ne unrepresentable isLast]
  exact Driver.setGroupLimit_self _ _ _

theorem exists_last {id : String} {providers : List (Option ContentHint)}
    (listed : ∃ p, some p ∈ providers ∧ p.id = id) :
    ∃ before p after, providers = before ++ some p :: after ∧ p.id = id ∧
      ∀ q, some q ∈ after → q.id ≠ id := by
  induction providers with
  | nil => simp at listed
  | cons provider providers induction =>
      by_cases later : ∃ p, some p ∈ providers ∧ p.id = id
      · rcases induction later with ⟨before, p, after, split, isLast⟩
        exact ⟨provider :: before, p, after, by rw [split]; rfl, isLast⟩
      · rcases listed with ⟨p, member, sameId⟩
        rcases List.mem_cons.mp member with rfl | inRest
        · exact ⟨[], p, providers, rfl, sameId, fun q isIn same => later ⟨q, isIn, same⟩⟩
        · exact absurd ⟨p, inRest, sameId⟩ later

end

namespace Sqlite.System

/-- The system that `main` starts: a new driver with its handlers and the limits. -/
def started (unrepresentable : Rat → Int) (db : Database) (handlers : List String)
    (maxConcurrency : Int) (providers : List (Option ContentHint)) : System :=
  let s := boot db handlers (fun _ => none) maxConcurrency
  { s with driver := applyPullGroupLimits unrepresentable s.driver providers }

theorem started_eq_boot (unrepresentable : Rat → Int) (db : Database) (handlers : List String)
    (maxConcurrency : Int) (providers : List (Option ContentHint)) :
    started unrepresentable db handlers maxConcurrency providers =
      boot db handlers
        (started unrepresentable db handlers maxConcurrency providers).driver.groupLimits
        maxConcurrency := by
  rcases foldl_limitProvider unrepresentable
    ((boot db handlers (fun _ => none) maxConcurrency).driver.setGroupLimit
      coverConcurrencyGroup defaultCoverGroupLimit) providers with ⟨groupLimits, same⟩
  simp only [started, applyPullGroupLimits, same]
  rfl

/-- In every run of the queue, whatever its table holds at the start and whichever database
calls fail: the jobs in progress for a content provider never outnumber the limit computed
from the hint of the last provider with its id, which is at most 16, and covers get four
slots unless a provider is called `cover`. -/
theorem pull_groups_within_limits (unrepresentable : Rat → Int) (db : Database)
    (handlers : List String) (maxConcurrency : Int) (providers : List (Option ContentHint))
    {actions : List Action} {last : System}
    (run : Run step (fun _ _ => True)
      (started unrepresentable db handlers maxConcurrency providers) actions last) :
    (∀ before p after, providers = before ++ some p :: after →
      (∀ q, some q ∈ after → q.id ≠ p.id) →
      last.inProgress (pullGroup p.id) ≤ computeContentGroupLimit unrepresentable p.rateLimit) ∧
    (∀ p, some p ∈ providers → last.inProgress (pullGroup p.id) ≤ maxContentGroupLimit) ∧
    ((∀ p, some p ∈ providers → p.id ≠ "cover") →
      last.inProgress coverConcurrencyGroup ≤ defaultCoverGroupLimit) := by
  rw [started_eq_boot] at run
  have inTotal : last.InTotal maxConcurrency := by
    apply run.invariant fun s => s.InTotal maxConcurrency
    · intro s action next _ inTotal taken
      have queued : s.stepWithLimits (.queue action) = some next := taken
      exact inTotal.step queued
    · exact inTotal_boot db handlers _ maxConcurrency
  have limits : ∀ group limit,
      (started unrepresentable db handlers maxConcurrency providers).driver.groupLimits group =
        some limit → 0 < limit → last.inProgress group ≤ limit := by
    intro group limit isLimit positive
    apply InGroup.inProgress _ inTotal
    apply run.invariant fun s => s.InGroup group limit
    · intro s action next _ inGroup taken
      have queued : s.stepWithLimits (.queue action) = some next := taken
      apply inGroup.step _ queued
      intro other isSet
      cases isSet
    · exact ⟨⟨limit, isLimit, positive, le_refl _⟩, positive.le⟩
  have ofLast : ∀ before p after, providers = before ++ some p :: after →
      (∀ q, some q ∈ after → q.id ≠ p.id) →
      last.inProgress (pullGroup p.id) ≤ computeContentGroupLimit unrepresentable p.rateLimit := by
    rintro before p after rfl isLast
    apply limits _ _ _ (computeContentGroupLimit_bounds unrepresentable p.rateLimit).1
    exact foldl_limitProvider_of_last unrepresentable isLast _
  refine ⟨ofLast, ?_, ?_⟩
  · intro p member
    rcases exists_last ⟨p, member, rfl⟩ with ⟨before, q, after, split, sameId, isLast⟩
    rw [← sameId] at isLast ⊢
    exact (ofLast before q after split isLast).trans
      (computeContentGroupLimit_bounds unrepresentable q.rateLimit).2
  · intro others
    apply limits _ _ _ (by decide)
    have kept := foldl_limitProvider_of_ne unrepresentable others
      ((boot db handlers (fun _ => none) maxConcurrency).driver.setGroupLimit
        coverConcurrencyGroup defaultCoverGroupLimit)
    rw [← coverConcurrencyGroup_eq] at kept
    exact kept.trans (Driver.setGroupLimit_self _ _ _)

/-- A provider that asks for one request in four seconds gets one slot: of its two pages
one waits. -/
theorem pull_groups_within_limits_slow_provider :
    ∃ last,
      Run step (fun _ _ => True)
        (started (fun _ => 0) Database.empty ["pull_page"] 8
          [some ⟨"mangadex", ⟨1 / 4, 0⟩⟩])
        [.createJob (Job.child "page-1" none "pull_page" "{}" "pull:mangadex" [] Time.zero),
          .createJob (Job.child "page-2" none "pull_page" "{}" "pull:mangadex" [] Time.zero),
          .pollAndDispatch (.quiet Time.zero)] last ∧
      last.goroutines.length = 1 ∧
      last.inProgress (pullGroup "mangadex") ≤
        computeContentGroupLimit (fun _ => 0) ⟨1 / 4, 0⟩ ∧
      computeContentGroupLimit (fun _ => 0) ⟨1 / 4, 0⟩ = 1 := by
  have executed : (Run.execute step (fun _ _ => true)
      (started (fun _ => 0) Database.empty ["pull_page"] 8 [some ⟨"mangadex", ⟨1 / 4, 0⟩⟩])
      [.createJob (Job.child "page-1" none "pull_page" "{}" "pull:mangadex" [] Time.zero),
        .createJob (Job.child "page-2" none "pull_page" "{}" "pull:mangadex" [] Time.zero),
        .pollAndDispatch (.quiet Time.zero)]).map
      (fun last => last.goroutines.length) = some 1 := by decide +kernel
  rcases Option.map_eq_some_iff.mp executed with ⟨last, executed, started⟩
  have run : Run step (fun _ _ => True) _ _ last :=
    (Run.ofExecute executed).weaken fun _ _ _ => trivial
  have limits := pull_groups_within_limits (fun _ => 0) Database.empty ["pull_page"] 8
    [some ⟨"mangadex", ⟨1 / 4, 0⟩⟩] run
  refine ⟨last, run, started, ?_, by decide +kernel⟩
  exact limits.1 [] ⟨"mangadex", ⟨1 / 4, 0⟩⟩ [] rfl (by simp)

end Sqlite.System

end Kiyomi.Queue
