import Kiyomi.Cache.Purging
import Kiyomi.Cache.Singleflight
import Mathlib.Algebra.Order.BigOperators.Group.Finset

namespace Kiyomi.Cache

/-! # Every call returns

Each step brings its thread nearer to its end, and while a call is in progress some thread
can move: the one that holds the lock, or one that reads under it, or any that does not
wait for a flight. A lock that lets no reader pass a waiting writer is no different here,
as the writer can move when nobody is under the lock. -/

/-! ## Steps left -/

def Store.weight : Store → Nat
  | .mkdirAll => 13
  | .fetch => 12
  | .createTemp _ => 11
  | .copy _ _ => 10
  | .close _ _ _ => 9
  | .lock _ _ => 8
  | .rename _ _ => 7
  | .writeFile _ _ => 6
  | .removeImage _ => 5
  | .unlock _ _ => 4
  | .removeTemp _ => 3

/-- What the caller of a lookup may still have to do after it. -/
def Caller.weight : Caller → Nat
  | .getPath => 0
  | .leader _ => 13
  | .getOrFetch => 22

def Lookup.weight : Lookup → Nat
  | .rLock => 7
  | .stat => 6
  | .readFile => 5
  | .rUnlock _ => 4
  | .lock _ => 3
  | .writeFile _ => 2
  | .unlock _ => 1

/-- The most steps that a thread can take before its call returns. -/
def Thread.weight : Thread → Nat
  | .free _ => 0
  | .lookup _ caller pc => caller.weight + pc.weight
  | .openCached _ _ => 22
  | .join _ => 21
  | .waiting _ _ => 2
  | .store _ _ pc => pc.weight
  | .finish _ _ _ => 2
  | .openResult _ _ => 1
  | .purge state => state.left

attribute [local simp] Caller.weight Lookup.weight Store.weight Thread.weight

section Steps

variable {cache : DiskCache} {files : Files} {flights : Flights} {answer : Answer}

theorem Caller.resume_weight (caller : Caller) (hash : String) (found : Option Meta) :
    (caller.resume hash found).weight ≤ caller.weight := by
  cases caller <;> cases found <;>
    simp [Caller.resume]

theorem Lookup.weight_next (hash : String) (caller : Caller) (pc : Lookup) :
    (pc.next cache files flights answer hash caller).thread.weight <
      (Thread.lookup hash caller pc).weight := by
  have resumed (found : Option Meta) := caller.resume_weight hash found
  cases pc with
  | rLock | readFile | lock copy | writeFile copy =>
      simp only [Lookup.next, Thread.weight, Lookup.weight]
      omega
  | stat =>
      simp only [Lookup.next]
      split <;> simp only [Thread.weight, Lookup.weight] <;> omega
  | rUnlock hit =>
      cases hit with
      | none =>
          change (caller.resume hash none).weight < caller.weight + 4
          exact Nat.lt_of_le_of_lt (resumed none) (Nat.lt_add_of_pos_right (by decide))
      | some found =>
          simp only [Lookup.next, Thread.weight, Lookup.weight]
          omega
  | unlock copy =>
      change (caller.resume hash (some copy)).weight < caller.weight + 1
      exact Nat.lt_add_one_of_le (resumed (some copy))

theorem Store.weight_next {hash : String} {call : Nat} {pc : Store} {move : Move}
    (moved : pc.next files flights answer hash call = some move) :
    move.thread.weight < (Thread.store hash call pc).weight := by
  cases pc with
  | unlock temp stored =>
      cases temp <;>
        · cases moved
          simp
  | lock | removeImage | removeTemp =>
      cases moved
      simp
  | createTemp fetched =>
      simp only [Store.next] at moved
      split at moved
      · cases moved
        simp
      · split at moved
        · contradiction
        · cases moved
          simp
  | mkdirAll | fetch | copy | close | rename | writeFile =>
      simp only [Store.next] at moved
      split at moved <;>
        · cases moved
          simp

theorem Purge.left_next {purge : Purge} {thread : Thread} {files' : Files}
    (moved : purge.next cache files answer = some (thread, files')) :
    thread.weight < purge.left := by
  rcases Purge.next_cases moved with ⟨idle, rfl, ⟨pruning, rfl⟩ | ⟨scanning, rfl⟩⟩ |
    ⟨before, task, rest, parts, rfl, rfl⟩
  · simp [Purge.left, idle, pruning]
  · exact Purge.prune_left idle scanning
  · exact Purge.after_left parts Task.next_left

theorem Thread.weight_next {thread : Thread} {move : Move}
    (moved : thread.next cache files flights answer = some move) :
    move.thread.weight < thread.weight := by
  cases thread with
  | free last => contradiction
  | lookup hash caller pc =>
      cases moved
      exact Lookup.weight_next hash caller pc
  | store hash call pc => exact Store.weight_next moved
  | purge state =>
      rcases Option.map_eq_some_iff.mp moved with ⟨⟨next, files'⟩, purged, rfl⟩
      exact Purge.left_next purged
  | openCached hash copy =>
      simp only [Thread.next] at moved
      split at moved <;>
        · cases moved
          simp
  | join hash =>
      cases moved
      split <;> simp
  | waiting hash call =>
      rcases Option.map_eq_some_iff.mp moved with ⟨result, _, rfl⟩
      simp
  | finish hash call result =>
      cases moved
      simp
  | openResult hash result =>
      cases moved
      simp

end Steps

theorem Thread.free_of_weight {thread : Thread} (weightless : thread.weight = 0) :
    ∃ result, thread = .free result := by
  cases thread with
  | free result => exact ⟨result, rfl⟩
  | lookup hash caller pc => cases pc <;> simp [Thread.weight, Lookup.weight] at weightless
  | store hash call pc => cases pc <;> simp at weightless
  | purge state =>
      simp only [Thread.weight, Purge.left] at weightless
      split at weightless <;> omega
  | openCached | join | waiting | finish | openResult => simp at weightless

/-! ## The lock in use -/

inductive Hold
  | nothing
  | shared
  | exclusive
  deriving DecidableEq

/-- How a thread holds the lock of the cache. -/
def Thread.hold : Thread → Hold
  | .lookup _ _ (.stat) | .lookup _ _ (.readFile) | .lookup _ _ (.rUnlock _) => .shared
  | .lookup _ _ (.writeFile _) | .lookup _ _ (.unlock _) => .exclusive
  | .store _ _ (.rename _ _) | .store _ _ (.writeFile _ _) | .store _ _ (.removeImage _)
  | .store _ _ (.unlock _ _) => .exclusive
  | _ => .nothing

/-- A lock operation takes a thread from one hold to another. -/
def LockStep.Moves (before after : Hold) : LockStep → Prop
  | .keep => after = before
  | .rLock => before = .nothing ∧ after = .shared
  | .rUnlock => before = .shared ∧ after = .nothing
  | .lock => before = .nothing ∧ after = .exclusive
  | .unlock => before = .exclusive ∧ after = .nothing

section Steps

variable {cache : DiskCache} {files : Files} {flights : Flights} {answer : Answer}

theorem Caller.resume_hold (caller : Caller) (hash : String) (found : Option Meta) :
    (caller.resume hash found).hold = .nothing := by
  cases caller <;> cases found <;> rfl

theorem Lookup.moves (hash : String) (caller : Caller) (pc : Lookup) :
    LockStep.Moves (Thread.lookup hash caller pc).hold
      (pc.next cache files flights answer hash caller).thread.hold
      (pc.next cache files flights answer hash caller).locking := by
  cases pc with
  | rLock => exact ⟨rfl, rfl⟩
  | stat =>
      simp only [Lookup.next]
      split <;> rfl
  | readFile => rfl
  | rUnlock hit =>
      cases hit with
      | none => exact ⟨rfl, caller.resume_hold hash none⟩
      | some found => exact ⟨rfl, rfl⟩
  | lock copy => exact ⟨rfl, rfl⟩
  | writeFile copy => rfl
  | unlock copy => exact ⟨rfl, caller.resume_hold hash (some copy)⟩

theorem Store.moves {hash : String} {call : Nat} {pc : Store} {move : Move}
    (moved : pc.next files flights answer hash call = some move) :
    move.locking.Moves (Thread.store hash call pc).hold move.thread.hold := by
  cases pc with
  | unlock temp stored =>
      cases temp <;>
        · cases moved
          exact ⟨rfl, rfl⟩
  | lock stored temp =>
      cases moved
      exact ⟨rfl, rfl⟩
  | removeImage | removeTemp =>
      cases moved
      rfl
  | createTemp fetched =>
      simp only [Store.next] at moved
      split at moved
      · cases moved
        rfl
      · split at moved
        · contradiction
        · cases moved
          rfl
  | mkdirAll | fetch | copy | close | rename | writeFile =>
      simp only [Store.next] at moved
      split at moved <;>
        · cases moved
          rfl

theorem Thread.moves {thread : Thread} {move : Move}
    (moved : thread.next cache files flights answer = some move) :
    move.locking.Moves thread.hold move.thread.hold := by
  cases thread with
  | free last => contradiction
  | lookup hash caller pc =>
      cases moved
      exact Lookup.moves hash caller pc
  | store hash call pc => exact Store.moves moved
  | purge state =>
      rcases Option.map_eq_some_iff.mp moved with ⟨⟨next, files'⟩, purged, rfl⟩
      unfold Purge.next at purged
      split at purged
      · split at purged <;>
          · cases purged
            rfl
      · contradiction
      · split at purged <;>
          · cases purged
            rfl
  | openCached hash copy =>
      simp only [Thread.next] at moved
      split at moved <;>
        · cases moved
          rfl
  | join hash =>
      cases moved
      split <;> rfl
  | waiting hash call =>
      rcases Option.map_eq_some_iff.mp moved with ⟨result, _, rfl⟩
      rfl
  | finish hash call result =>
      cases moved
      rfl
  | openResult hash result =>
      cases moved
      rfl

/-- Whoever is in a call and does not wait for a flight has a next operation, for which
the environment has an answer. -/
theorem Thread.next_isSome {thread : Thread} (busy : thread.weight ≠ 0)
    (awaits : thread.awaits = none) :
    ∃ move, thread.next cache files flights { fails := true } = some move := by
  cases thread with
  | free last => exact absurd rfl busy
  | lookup hash caller pc => exact ⟨_, rfl⟩
  | store hash call pc =>
      cases pc with
      | unlock temp stored => cases temp <;> exact ⟨_, rfl⟩
      | rename stored temp =>
          simp only [Thread.next, Store.next]
          split <;> exact ⟨_, rfl⟩
      | lock | removeImage | removeTemp | createTemp | mkdirAll | fetch | copy | close
      | writeFile => exact ⟨_, rfl⟩
  | purge state =>
      simp only [Thread.next, Purge.next]
      cases tasks : state.tasks with
      | nil =>
          simp only
          split <;> exact ⟨_, rfl⟩
      | cons task tasks =>
          simp only [focus]
          split <;> exact ⟨_, rfl⟩
  | openCached hash copy => exact ⟨_, rfl⟩
  | join hash => exact ⟨_, rfl⟩
  | waiting hash call => cases awaits
  | finish hash call result => exact ⟨_, rfl⟩
  | openResult hash result => exact ⟨_, rfl⟩

end Steps

namespace State

/-- The writer is the thread with the exclusive hold, the readers are those with a shared
one, and only finitely many threads are in a call. -/
structure Accounted (s : State) (busy : Finset Nat) : Prop where
  writer : ∀ thread, s.writer = some thread ↔ (s.threads thread).hold = .exclusive
  readers : ∃ reading : Finset Nat,
    (∀ thread, thread ∈ reading ↔ (s.threads thread).hold = .shared) ∧
    reading.card = s.readers
  idle : ∀ thread, thread ∉ busy → (s.threads thread).weight = 0

/-- The steps that the calls in progress have left at most. -/
def weight (s : State) (busy : Finset Nat) : Nat := ∑ thread ∈ busy, (s.threads thread).weight

variable {s next : State} {thread : Nat} {busy : Finset Nat}

theorem accounted_opened (files : Files) : (opened files).Accounted ∅ where
  writer _ := by simp [opened, Thread.hold]
  readers := ⟨∅, by simp [opened, Thread.hold], rfl⟩
  idle _ _ := rfl

/-- What a lock operation of a thread finds and does. -/
def LockEffect (s next : State) (thread : Nat) : LockStep → Prop
  | .keep => next.writer = s.writer ∧ next.readers = s.readers
  | .rLock => s.writer = none ∧ next.writer = none ∧ next.readers = s.readers + 1
  | .rUnlock => next.writer = s.writer ∧ next.readers = s.readers - 1
  | .lock => s.writer = none ∧ next.writer = some thread ∧ next.readers = s.readers
  | .unlock => next.writer = none ∧ next.readers = s.readers

theorem lockEffect_of_apply {move : Move} (applied : s.apply thread move = some next) :
    LockEffect s next thread move.locking := by
  unfold State.apply at applied
  cases locking : move.locking with
  | keep | rUnlock | unlock =>
      simp only [locking, Option.some.injEq] at applied
      subst applied
      exact ⟨rfl, rfl⟩
  | rLock =>
      simp only [locking, Option.ite_none_right_eq_some, Option.some.injEq,
        Option.isNone_iff_eq_none] at applied
      rcases applied with ⟨free, rfl⟩
      exact ⟨free, free, rfl⟩
  | lock =>
      simp only [locking, Option.ite_none_right_eq_some, Option.some.injEq, Bool.and_eq_true,
        Option.isNone_iff_eq_none] at applied
      rcases applied with ⟨free, rfl⟩
      exact ⟨free.1, rfl, rfl⟩

theorem Accounted.lock (accounted : s.Accounted busy) {locking : LockStep}
    (others : ∀ other, other ≠ thread → next.threads other = s.threads other)
    (moves : locking.Moves (s.threads thread).hold (next.threads thread).hold)
    (effect : LockEffect s next thread locking) :
    (∀ other, next.writer = some other ↔ (next.threads other).hold = .exclusive) ∧
    ∃ reading : Finset Nat,
      (∀ other, other ∈ reading ↔ (next.threads other).hold = .shared) ∧
      reading.card = next.readers := by
  rcases accounted.readers with ⟨reading, isReading, card⟩
  have sameHold (same : (next.threads thread).hold = (s.threads thread).hold) (other : Nat) :
      (next.threads other).hold = (s.threads other).hold := by
    by_cases isThread : other = thread
    · rw [isThread, same]
    · rw [others other isThread]
  have writer := accounted.writer
  cases locking with
  | keep =>
      refine ⟨fun other => ?_, reading, fun other => ?_, card.trans effect.2.symm⟩
      · rw [effect.1, sameHold moves, writer]
      · rw [sameHold moves, isReading]
  | rLock =>
      refine ⟨fun other => ?_, insert thread reading, fun other => ?_, ?_⟩
      · by_cases isThread : other = thread
        · simp [isThread, effect.2.1, moves.2]
        · rw [others other isThread, ← writer, effect.1, effect.2.1]
      · by_cases isThread : other = thread
        · simp [isThread, moves.2]
        · simp [isThread, isReading, others other isThread]
      · have fresh : thread ∉ reading := by simp [isReading, moves.1]
        rw [Finset.card_insert_of_notMem fresh, card, effect.2.2]
  | rUnlock =>
      refine ⟨fun other => ?_, reading.erase thread, fun other => ?_, ?_⟩
      · by_cases isThread : other = thread
        · rw [effect.1, isThread, writer, moves.1, moves.2]
          simp
        · rw [effect.1, others other isThread, writer]
      · by_cases isThread : other = thread
        · simp [isThread, moves.2]
        · simp [isThread, isReading, others other isThread]
      · have member : thread ∈ reading := (isReading thread).mpr moves.1
        rw [Finset.card_erase_of_mem member, card, effect.2]
  | lock =>
      refine ⟨fun other => ?_, reading, fun other => ?_, card.trans effect.2.2.symm⟩
      · by_cases isThread : other = thread
        · simp [isThread, effect.2.1, moves.2]
        · rw [others other isThread, ← writer, effect.1, effect.2.1]
          simp [Ne.symm isThread]
      · by_cases isThread : other = thread
        · simp [isThread, isReading, moves.1, moves.2]
        · rw [isReading, others other isThread]
  | unlock =>
      refine ⟨fun other => ?_, reading, fun other => ?_, card.trans effect.2.symm⟩
      · by_cases isThread : other = thread
        · simp [isThread, effect.1, moves.2]
        · have own := (writer thread).mpr moves.1
          rw [others other isThread, ← writer, own, effect.1]
          simp [Ne.symm isThread]
      · by_cases isThread : other = thread
        · simp [isThread, isReading, moves.1, moves.2]
        · rw [isReading, others other isThread]

theorem Accounted.advance (accounted : s.Accounted busy) {cache : DiskCache} {answer : Answer}
    (taken : cache.step s (.advance thread answer) = some next) :
    next.Accounted busy ∧ next.weight busy < s.weight busy := by
  have others : ∀ other, other ≠ thread → next.threads other = s.threads other :=
    fun other different => step_threads_ne taken different
  rcases Option.bind_eq_some_iff.mp taken with ⟨move, moved, applied⟩
  have self : next.threads thread = move.thread := by
    rw [(apply_threads applied).1, Function.update_self]
  have lower : (next.threads thread).weight < (s.threads thread).weight := by
    rw [self]
    exact Thread.weight_next moved
  have isBusy : thread ∈ busy := by
    by_contra outside
    rw [accounted.idle thread outside] at lower
    exact Nat.not_lt_zero _ lower
  have moves : move.locking.Moves (s.threads thread).hold (next.threads thread).hold := by
    rw [self]
    exact Thread.moves moved
  have locked := accounted.lock others moves (lockEffect_of_apply applied)
  refine ⟨⟨locked.1, locked.2, fun other outside => ?_⟩, ?_⟩
  · have different : other ≠ thread := fun same => outside (same ▸ isBusy)
    rw [others other different]
    exact accounted.idle other outside
  · apply Finset.sum_lt_sum
    · intro other _
      by_cases isThread : other = thread
      · rw [isThread]
        exact lower.le
      · rw [others other isThread]
    · exact ⟨thread, isBusy, lower⟩

/-- A thread that holds nothing goes on to another such state. -/
theorem Accounted.setThread (accounted : s.Accounted busy) {after : Thread}
    (before : (s.threads thread).hold = .nothing) (hold : after.hold = .nothing) :
    (s.setThread thread after).Accounted (insert thread busy) := by
  have others : ∀ other, other ≠ thread →
      (s.setThread thread after).threads other = s.threads other :=
    fun other different => Function.update_of_ne different _ _
  have self : (s.setThread thread after).threads thread = after := Function.update_self ..
  have moves : LockStep.keep.Moves (s.threads thread).hold
      ((s.setThread thread after).threads thread).hold := by
    rw [self, before]
    exact hold
  have locked := accounted.lock others moves ⟨rfl, rfl⟩
  refine ⟨locked.1, locked.2, fun other outside => ?_⟩
  rw [Finset.mem_insert, not_or] at outside
  rw [others other outside.1]
  exact accounted.idle other outside.2

theorem Accounted.visit (accounted : s.Accounted busy) {task : Task}
    (visited : s.visit thread task = some next) : next.Accounted (insert thread busy) := by
  unfold State.visit at visited
  split at visited
  · rename_i state isPurge
    split at visited
    · contradiction
    · cases visited
      exact accounted.setThread (by rw [isPurge]; rfl) rfl
  · contradiction

theorem Accounted.step (accounted : s.Accounted busy) {cache : DiskCache} {action : Action}
    (taken : cache.step s action = some next) : ∃ busy, next.Accounted busy := by
  cases action with
  | call thread operation =>
      simp only [DiskCache.step] at taken
      split at taken
      · rename_i last isFree
        cases taken
        refine ⟨_, accounted.setThread (by rw [isFree]; rfl) ?_⟩
        cases operation <;> rfl
      · contradiction
  | advance thread answer => exact ⟨busy, (accounted.advance taken).1⟩
  | visitImage thread hash => exact ⟨_, accounted.visit taken⟩
  | visitSidecar thread hash => exact ⟨_, accounted.visit taken⟩
  | visitTemp thread temp => exact ⟨_, accounted.visit taken⟩

/-! ## Some thread can move -/

theorem apply_isSome {move : Move} (free : move.locking = .rLock → s.writer = none)
    (alone : move.locking = .lock → s.writer = none ∧ s.readers = 0) (thread : Nat) :
    ∃ next, s.apply thread move = some next := by
  unfold State.apply
  cases locking : move.locking with
  | keep | rUnlock | unlock => exact ⟨_, rfl⟩
  | rLock =>
      simp only [free locking, Option.isNone_none, if_true]
      exact ⟨_, rfl⟩
  | lock =>
      simp only [(alone locking).1, (alone locking).2, Option.isNone_none, beq_self_eq_true,
        Bool.and_self, if_true]
      exact ⟨_, rfl⟩

/-- A thread under the lock, or any thread while nobody is under it, takes its next step. -/
theorem step_isSome {cache : DiskCache} {answer : Answer} {move : Move}
    (moved : (s.threads thread).next cache s.files s.flights answer = some move)
    (unlocked : (s.threads thread).hold ≠ .nothing ∨ s.writer = none ∧ s.readers = 0) :
    ∃ next, cache.step s (.advance thread answer) = some next := by
  have moves := Thread.moves moved
  have holds : (move.locking = .rLock ∨ move.locking = .lock) →
      s.writer = none ∧ s.readers = 0 := by
    intro waits
    rcases unlocked with holding | free
    · rcases waits with locking | locking <;>
        · rw [locking] at moves
          exact absurd moves.1 holding
    · exact free
  rcases apply_isSome (fun isRLock => (holds (.inl isRLock)).1) (fun isLock => holds (.inr isLock))
    thread with ⟨next, applied⟩
  refine ⟨next, ?_⟩
  change ((s.threads thread).next cache s.files s.flights answer).bind _ = _
  rw [moved]
  exact applied

theorem weight_ne_zero_of_hold {thread : Thread} (holding : thread.hold ≠ .nothing) :
    thread.weight ≠ 0 ∧ thread.awaits = none := by
  cases thread with
  | lookup hash caller pc =>
      refine ⟨?_, rfl⟩
      cases pc <;> simp [Thread.weight, Lookup.weight]
  | store hash call pc =>
      refine ⟨?_, rfl⟩
      cases pc <;> simp
  | free | openCached | join | waiting | finish | openResult | purge => exact absurd rfl holding

theorem weight_ne_zero_of_flight {thread : Thread} {flight : String × Nat}
    (leads : thread.flight = some flight) : thread.weight ≠ 0 ∧ thread.awaits = none := by
  cases thread with
  | lookup hash caller pc =>
      refine ⟨?_, rfl⟩
      cases pc <;> simp [Thread.weight, Lookup.weight]
  | store hash call pc =>
      refine ⟨?_, rfl⟩
      cases pc <;> simp
  | finish hash call result => exact ⟨by simp, rfl⟩
  | free | openCached | join | waiting | openResult | purge => cases leads

theorem awaits_eq {thread : Thread} {hash : String} {call : Nat}
    (awaits : thread.awaits = some (hash, call)) : thread = .waiting hash call := by
  cases thread with
  | waiting hash' call' =>
      cases awaits
      rfl
  | free | lookup | openCached | join | store | finish | openResult | purge => cases awaits

/-- While a call is in progress some thread can move. -/
theorem Accounted.canMove (accounted : s.Accounted busy) (airborne : s.Airborne)
    (cache : DiskCache) (inCall : (s.threads thread).weight ≠ 0) :
    ∃ mover answer next, cache.step s (.advance mover answer) = some next := by
  have hasNext (mover : Nat) (active : (s.threads mover).weight ≠ 0)
      (awaits : (s.threads mover).awaits = none) :
      ∃ move, (s.threads mover).next cache s.files s.flights { fails := true } = some move :=
    Thread.next_isSome active awaits
  have ofHold (holder : Nat) (holding : (s.threads holder).hold ≠ .nothing) :
      ∃ mover answer next, cache.step s (.advance mover answer) = some next := by
    have active := weight_ne_zero_of_hold holding
    rcases hasNext holder active.1 active.2 with ⟨move, moved⟩
    rcases step_isSome moved (.inl holding) with ⟨next, taken⟩
    exact ⟨holder, _, next, taken⟩
  cases writer : s.writer with
  | some holder =>
      apply ofHold holder
      rw [(accounted.writer holder).mp writer]
      decide
  | none =>
      rcases accounted.readers with ⟨reading, isReading, card⟩
      rcases reading.eq_empty_or_nonempty with rfl | ⟨reader, member⟩
      · have free : s.writer = none ∧ s.readers = 0 := ⟨writer, by rw [← card]; rfl⟩
        have ofActive (mover : Nat) (active : (s.threads mover).weight ≠ 0)
            (awaits : (s.threads mover).awaits = none) :
            ∃ mover answer next, cache.step s (.advance mover answer) = some next := by
          rcases hasNext mover active awaits with ⟨move, moved⟩
          rcases step_isSome moved (.inr free) with ⟨next, taken⟩
          exact ⟨mover, _, next, taken⟩
        cases awaits : (s.threads thread).awaits with
        | none => exact ofActive thread inCall awaits
        | some flight =>
            rcases airborne.awaited thread flight.1 flight.2 awaits with isOpen | ended
            · -- the leader of the flight is not waiting for one
              rcases (airborne.opened flight.1 flight.2).mp isOpen with ⟨leader, leads⟩
              have active := weight_ne_zero_of_flight leads
              exact ofActive leader active.1 active.2
            · rcases Option.ne_none_iff_exists'.mp ended with ⟨result, isResult⟩
              have moved : (s.threads thread).next cache s.files s.flights {} =
                  some
                    { thread := .openResult flight.1 result
                      files := s.files
                      flights := s.flights } := by
                rw [awaits_eq awaits]
                simp [Thread.next, isResult]
              rcases step_isSome moved (.inr free) with ⟨next, taken⟩
              exact ⟨thread, _, next, taken⟩
      · apply ofHold reader
        rw [(isReading reader).mp member]
        decide

end State

def Action.isAdvance : Action → Bool
  | .advance _ _ => true
  | _ => false

/-- From every state that any operations lead to, in any interleaving and with any failures:
once no new call comes and no purge takes up another file, only so many steps are left,
and when no thread can move every call has returned. So nobody waits for ever for the lock
or for a flight. -/
theorem calls_return (cache : DiskCache) (files : Files) {actions : List Action}
    {last : State} (run : Run cache.step (fun _ _ => True) (.opened files) actions last) :
    ∃ bound, ∀ later settled,
      Run cache.step (fun _ action => action.isAdvance = true) last later settled →
      later.length ≤ bound ∧
      ((∀ thread answer, cache.step settled (.advance thread answer) = none) →
        ∀ thread, ∃ result, settled.threads thread = .free result) := by
  have airborne : last.Airborne :=
    run.invariant State.Airborne (fun _ _ _ _ airborne taken => airborne.step taken)
      (State.airborne_opened files)
  have accounted : ∃ busy, last.Accounted busy := by
    apply run.invariant fun s => ∃ busy, s.Accounted busy
    · rintro s action next _ ⟨busy, accounted⟩ taken
      exact accounted.step taken
    · exact ⟨∅, State.accounted_opened files⟩
  rcases accounted with ⟨busy, accounted⟩
  refine ⟨last.weight busy, ?_⟩
  intro later settled continuation
  have bounded := continuation.length_le (fun s => s.Accounted busy ∧ s.Airborne)
    (fun s => s.weight busy) (by
      intro s action next isAdvance kept taken
      cases action with
      | advance thread answer =>
          have advanced := kept.1.advance taken
          exact ⟨⟨advanced.1, kept.2.step taken⟩, advanced.2⟩
      | call | visitImage | visitSidecar | visitTemp => cases isAdvance) ⟨accounted, airborne⟩
  refine ⟨by omega, ?_⟩
  intro stuck thread
  apply Thread.free_of_weight
  by_contra inCall
  rcases bounded.1.1.canMove bounded.1.2 cache inCall with ⟨mover, answer, next, taken⟩
  rw [stuck mover answer] at taken
  contradiction

/-- Two misses of one image, the second waiting for the first. -/
theorem calls_return_shared :
    ∃ last,
      Run (DiskCache.step { ttl := 0, maxBytes := 1 }) (fun _ _ => True) (.opened .empty)
        (.call 0 (.getOrFetch "ab") :: List.replicate 8 (.advance 0 {}) ++
          .call 1 (.getOrFetch "ab") :: List.replicate 4 (.advance 1 {})) last ∧
      (last.threads 1).awaits = some ("ab", 0) ∧
      ∃ bound, ∀ later settled,
        Run (DiskCache.step { ttl := 0, maxBytes := 1 })
          (fun _ action => action.isAdvance = true) last later settled →
        later.length ≤ bound ∧
        ((∀ thread answer, DiskCache.step { ttl := 0, maxBytes := 1 } settled
            (.advance thread answer) = none) →
          ∀ thread, ∃ result, settled.threads thread = .free result) := by
  have executed : (Run.execute (DiskCache.step { ttl := 0, maxBytes := 1 }) (fun _ _ => true)
      (.opened .empty)
      (.call 0 (.getOrFetch "ab") :: List.replicate 8 (.advance 0 {}) ++
        .call 1 (.getOrFetch "ab") :: List.replicate 4 (.advance 1 {}))).map
      (fun last => (last.threads 1).awaits) = some (some ("ab", 0)) := by decide +kernel
  rcases Option.map_eq_some_iff.mp executed with ⟨last, execution, observed⟩
  have run : Run (DiskCache.step { ttl := 0, maxBytes := 1 }) (fun _ _ => True) (.opened .empty)
      _ last := (Run.ofExecute execution).weaken fun _ _ _ => trivial
  exact ⟨last, run, observed, calls_return { ttl := 0, maxBytes := 1 } .empty run⟩

end Kiyomi.Cache
