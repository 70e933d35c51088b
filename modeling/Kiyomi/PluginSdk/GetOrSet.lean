import Kiyomi.PluginSdk.TimedCache

namespace Kiyomi.PluginSdk

open Go

/-! # One value for all callers

While the item of a key neither expires nor is removed, the calls of `GetOrSet` for the key
compute it at most once. -/

section

variable {K : Type u} {V : Type v} [DecidableEq K]

/-- The step neither removes the item of a key nor lets it expire. -/
def CacheState.lasts (key : K) (s : CacheState K V) : CacheAction K V → Bool
  | .call _ _ => true
  | .advance thread answer =>
      !(s.goroutines thread).removes key &&
        (s.items key).all fun it => it.isExpired s.clock || !it.isExpired answer.now

def Event.computes (key : K) : Event K V → Bool
  | .computed other _ => other = key
  | _ => false

variable {s next : CacheState K V} {thread : Nat} {answer : CacheAnswer V} {key : K}

/-- What lives at the clock lives on. -/
theorem alive_of_lasts {it : Item V} (lasts : s.lasts key (.advance thread answer) = true)
    (lives : expiry.alive (s.items key) s.clock = some it) :
    s.items key = some it ∧ it.isExpired answer.now = false := by
  rw [Mortality.alive, Option.filter_eq_some_iff] at lives
  rw [CacheState.lasts, Bool.and_eq_true, lives.1, Option.all_some, Bool.or_eq_true] at lasts
  have living : it.isExpired s.clock = false := by simpa [expiry] using lives.2
  rcases lasts.2 with expired | fresh
  · rw [living] at expired
    contradiction
  · exact ⟨lives.1, by simpa using fresh⟩

theorem alive_some {it : Item V} {now : Time} (fresh : it.isExpired now = false) :
    expiry.alive (some it) now = some it := by
  simp [Mortality.alive, expiry, Option.filter_some, fresh]

/-- A step that neither stores nor removes leaves what lives. -/
theorem alive_kept {items : Items K V} (later : s.clock ≤ answer.now)
    (lasts : s.lasts key (.advance thread answer) = true)
    (kept : items key = s.items key ∨ items key = none ∧
      ∀ it, s.items key = some it → it.isExpired answer.now = true) :
    expiry.alive (items key) answer.now = expiry.alive (s.items key) s.clock := by
  cases lives : expiry.alive (s.items key) s.clock with
  | none =>
      rcases kept with same | ⟨dropped, _⟩
      · rw [same]
        exact alive_later lives later
      · rw [dropped]
        rfl
  | some it =>
      rcases alive_of_lasts lasts lives with ⟨found, fresh⟩
      rcases kept with same | ⟨_, expired⟩
      · rw [same, found, alive_some fresh]
      · rw [expired it found] at fresh
        contradiction

/-- What the calls for a key have come to since the segment began. -/
structure Segment (key : K) (segment : List (Event K V)) (s : CacheState K V) : Prop where
  once : segment.countP (Event.computes key) ≤ 1
  lives : ∀ it, .computed key it ∈ segment → (expiry.alive (s.items key) s.clock).isSome = true
  value : (∀ it, .set key it ∉ segment) → ∀ it, .computed key it ∈ segment →
    expiry.alive (s.items key) s.clock = some it
  snapshots : (∀ it, .set key it ∉ segment) → ∀ thread getter it,
    s.goroutines thread = .check key getter it → .read thread key ∈ segment →
    expiry.alive it s.clock = none ∨ expiry.alive it s.clock = expiry.alive (s.items key) s.clock
  returned : (∀ it, .set key it ∉ segment) → ∀ thread found earlier,
    .returned thread key (some found) :: earlier <:+ segment → .read thread key ∈ earlier →
    (expiry.alive (s.items key) s.clock).map Item.value = some found
  errors : ∀ thread earlier, .returned thread key none :: earlier <:+ segment →
    ∀ it, .computed key it ∉ earlier

theorem segment_nil (s : CacheState K V) : Segment key [] s where
  once := Nat.zero_le _
  lives _ member := absurd member List.not_mem_nil
  value _ _ member := absurd member List.not_mem_nil
  snapshots _ _ _ _ _ member := absurd member List.not_mem_nil
  returned _ _ _ _ suffix := by
    have empty := List.suffix_nil.mp suffix
    contradiction
  errors _ _ suffix := by
    have empty := List.suffix_nil.mp suffix
    contradiction

/-- The ways in which a call of `GetOrSet` returns. -/
inductive Returns (key : K) (self : Nat) (goroutine : Goroutine K V) (items : Items K V)
    (answer : CacheAnswer V) (history earlier : List (Event K V)) : Option V → Prop where
  | hit (it : Item V) : goroutine = .check key .getOrSet (some it) →
      it.isExpired answer.now = false →
      earlier = .got self key answer.now (some it.value) :: history →
      Returns key self goroutine items answer history earlier (some it.value)
  | found (it : Item V) : goroutine = .doubleCheck key →
      expiry.alive (items key) answer.now = some it → earlier = history →
      Returns key self goroutine items answer history earlier (some it.value)
  | computed (it : Item V) : goroutine = .compute key → earlier = .computed key it :: history →
      Returns key self goroutine items answer history earlier (some it.value)
  | failed : goroutine = .compute key → answer.computed = none → earlier = history →
      Returns key self goroutine items answer history earlier none

theorem Goroutine.next_returned {items : Items K V} {locked : Bool} {self : Nat}
    {goroutine : Goroutine K V} {move : CacheMove K V} {result : Option V}
    {earlier history : List (Event K V)}
    (moved : goroutine.next items locked self answer = some move)
    (suffix : .returned thread key result :: earlier <:+ move.events ++ history) :
    .returned thread key result :: earlier <:+ history ∨
      thread = self ∧ Returns key self goroutine items answer history earlier result := by
  cases goroutine with
  | idle => contradiction
  | set | delete | clear | purgeExpired | removeExpired | read =>
      cases moved
      exact .inl (by simpa [List.suffix_cons_iff] using suffix)
  | check other getter it =>
      cases it with
      | none =>
          cases moved
          exact .inl (by simpa [List.suffix_cons_iff] using suffix)
      | some it =>
          simp only [next] at moved
          split at moved
          · cases moved
            exact .inl (by simpa [List.suffix_cons_iff] using suffix)
          · rename_i lives
            cases moved
            cases getter with
            | get => exact .inl (by simpa [Getter.hit, List.suffix_cons_iff] using suffix)
            | getOrSet =>
                rcases List.suffix_cons_iff.mp suffix with same | old
                · cases same
                  exact .inr ⟨rfl, .hit it rfl (Bool.eq_false_iff.mpr lives) rfl⟩
                · exact .inl ((List.suffix_cons_iff.mp old).resolve_left (by simp))
  | doubleCheck other =>
      simp only [next] at moved
      split at moved
      · rename_i it lives
        cases moved
        rcases List.suffix_cons_iff.mp suffix with same | old
        · cases same
          exact .inr ⟨rfl, .found it rfl lives rfl⟩
        · exact .inl old
      · cases moved
        exact .inl (by simpa [List.suffix_cons_iff] using suffix)
  | compute other =>
      simp only [next] at moved
      split at moved
      · rename_i value ttl succeeded
        cases moved
        rcases List.suffix_cons_iff.mp suffix with same | old
        · have isValue : (Item.stored value ttl answer.now).value = value := by
            unfold Item.stored
            split <;> rfl
          have returns : ∀ earlier, earlier =
              .computed other (Item.stored value ttl answer.now) :: history →
              Returns other self (.compute other) items answer history earlier
                (some (Item.stored value ttl answer.now).value) :=
            fun earlier parts => .computed _ rfl parts
          rw [isValue] at returns
          cases same
          exact .inr ⟨rfl, returns _ rfl⟩
        · exact .inl ((List.suffix_cons_iff.mp old).resolve_left (by simp))
      · rename_i failed
        cases moved
        rcases List.suffix_cons_iff.mp suffix with same | old
        · cases same
          exact .inr ⟨rfl, .failed rfl failed rfl⟩
        · exact .inl old

/-- A function fails only before one has succeeded. -/
theorem Segment.errors_next {segment : List (Event K V)} (between : Segment key segment s)
    (computing : Computing s) {move : CacheMove K V}
    (moved : (s.goroutines thread).next s.items s.locked thread answer = some move)
    {other : Nat} {earlier : List (Event K V)}
    (suffix : .returned other key none :: earlier <:+ move.events ++ segment) (it : Item V) :
    .computed key it ∉ earlier := by
  rcases Goroutine.next_returned moved suffix with old | ⟨rfl, returns⟩
  · exact between.errors other earlier old it
  · cases returns with
    | failed computes _ isSegment =>
        intro member
        have lives := between.lives it (isSegment ▸ member)
        rw [computing.missing other key computes] at lives
        contradiction

/-- A step that neither stores nor removes. -/
theorem Segment.kept {segment : List (Event K V)} (between : Segment key segment s)
    (computing : Computing s) (lasts : s.lasts key (.advance thread answer) = true)
    {move : CacheMove K V}
    (moved : (s.goroutines thread).next s.items s.locked thread answer = some move)
    (later : s.clock ≤ answer.now)
    (noStore : ∀ it, .set key it ∉ move.events ∧ .computed key it ∉ move.events)
    (same : expiry.alive (move.items key) answer.now = expiry.alive (s.items key) s.clock) :
    Segment key (move.events ++ segment)
      { items := move.items
        locked := move.locked
        clock := answer.now
        goroutines := Function.update s.goroutines thread move.goroutine
        history := move.events ++ s.history } := by
  have noSet (free : ∀ it, .set key it ∉ move.events ++ segment) : ∀ it, .set key it ∉ segment :=
    fun it member => free it (List.mem_append_right _ member)
  have computedBefore {it : Item V} (member : .computed key it ∈ move.events ++ segment) :
      .computed key it ∈ segment :=
    (List.mem_append.mp member).resolve_left (noStore it).2
  refine ⟨?_, fun it member => ?_, fun free it member => ?_,
    fun free other getter it checks read => ?_, fun free other found earlier suffix read => ?_,
    fun other earlier suffix it => between.errors_next computing moved suffix it⟩
  · have none : move.events.countP (Event.computes key) = 0 := by
      refine List.countP_eq_zero.mpr fun event member computes => ?_
      cases event with
      | computed other it =>
          cases of_decide_eq_true computes
          exact (noStore it).2 member
      | set | deleted | cleared | read | got | returned => contradiction
    rw [List.countP_append, none, Nat.zero_add]
    exact between.once
  · rw [same]
    exact between.lives it (computedBefore member)
  · rw [same]
    exact between.value (noSet free) it (computedBefore member)
  · rw [same]
    by_cases isOwn : other = thread
    · subst isOwn
      have checks := (Function.update_self other _ s.goroutines).symm.trans checks
      rcases Goroutine.next_check moved checks with ⟨_, rfl, events⟩
      exact .inr (alive_kept later lasts (.inl rfl))
    · have checks := (Function.update_of_ne isOwn ..).symm.trans checks
      have readBefore : .read other key ∈ segment := by
        refine (List.mem_append.mp read).resolve_left fun member => ?_
        have reads := Goroutine.next_reads moved isOwn _ member
        simp [Event.reads] at reads
      rcases between.snapshots (noSet free) other getter it checks readBefore with missing | equal
      · exact .inl (alive_later missing later)
      · cases lives : expiry.alive (s.items key) s.clock with
        | none => exact .inl (alive_later (equal.trans lives) later)
        | some item =>
            have fresh := (alive_of_lasts lasts lives).2
            have isItem := (Option.filter_eq_some_iff.mp (equal.trans lives)).1
            exact .inr (isItem ▸ alive_some fresh)
  · rw [same]
    rcases Goroutine.next_returned moved suffix with old | ⟨rfl, returns⟩
    · exact between.returned (noSet free) other found earlier old read
    · have goesOn : expiry.alive (s.items key) answer.now = expiry.alive (s.items key) s.clock :=
        alive_kept later lasts (.inl rfl)
      cases returns with
      | hit it checks fresh parts =>
          have readBefore : .read other key ∈ segment := by
            rw [parts] at read
            exact (List.mem_cons.mp read).resolve_left (by simp)
          rcases between.snapshots (noSet free) other _ _ checks readBefore with missing | equal
          · have missing := alive_later missing later
            rw [alive_some fresh] at missing
            contradiction
          · have lived : it.isExpired s.clock = false := by
              by_contra expired
              rw [Bool.not_eq_false] at expired
              have dead : it.isExpired answer.now = true := expiry.stays it later expired
              rw [dead] at fresh
              contradiction
            rw [← equal, alive_some lived]
            rfl
      | found it _ lives _ =>
          rw [← goesOn, lives]
          rfl
      | computed it computes parts =>
          have member : .computed key it ∈ move.events ++ segment :=
            suffix.subset (parts ▸ List.mem_cons_of_mem _ List.mem_cons_self)
          have lives := between.lives it (computedBefore member)
          rw [computing.missing other key computes] at lives
          contradiction

theorem Segment.advance {segment : List (Event K V)} (between : Segment key segment s)
    (computing : Computing s) (lasts : s.lasts key (.advance thread answer) = true)
    (taken : s.advance thread answer = some next) :
    ∃ events, next.history = events ++ s.history ∧ Segment key (events ++ segment) next := by
  rcases advance_cases taken with ⟨move, moved, later, _, rfl⟩
  refine ⟨move.events, rfl, ?_⟩
  have errors : ∀ other earlier, .returned other key none :: earlier <:+ move.events ++ segment →
      ∀ it, .computed key it ∉ earlier :=
    fun other earlier suffix it => between.errors_next computing moved suffix it
  have touches : Touches key thread (s.goroutines thread) s.items answer.now move :=
    Goroutine.next_touches moved
  cases touches with
  | kept noStore _ _ same =>
      exact between.kept computing lasts moved later noStore (alive_kept later lasts same)
  | removed removes _ _ =>
      rw [CacheState.lasts, removes] at lasts
      contradiction
  | set it isStored fresh events =>
      have lives : expiry.alive (move.items key) answer.now = some it := by
        rw [isStored, alive_some fresh]
      have isSet : .set key it ∈ move.events ++ segment := by
        rw [events]
        exact List.mem_cons_self
      refine ⟨?_, fun _ _ => ?_, fun free => absurd isSet (free it),
        fun free => absurd isSet (free it), fun free => absurd isSet (free it), errors⟩
      · rw [events]
        exact between.once
      · rw [lives]
        rfl
  | computed it computes isStored fresh events =>
      have lives : expiry.alive (move.items key) answer.now = some it := by
        rw [isStored, alive_some fresh]
      -- The function was called because nothing lived, so none has succeeded before.
      have missing := computing.missing thread key computes
      have first : ∀ other, .computed key other ∉ segment := by
        intro other member
        have lived := between.lives other member
        rw [missing] at lived
        contradiction
      have onlyOne {other : Item V} (member : .computed key other ∈ move.events ++ segment) :
          other = it := by
        rw [events] at member
        rcases List.mem_append.mp member with new | old
        · simpa using new
        · exact absurd old (first other)
      have noCheck : ∀ getter item, move.goroutine ≠ .check key getter item := by
        intro getter item checks
        rw [(Goroutine.next_check moved checks).1] at computes
        contradiction
      refine ⟨?_, fun _ _ => ?_, fun _ other member => ?_, fun free other getter item checks read => ?_,
        fun free other found earlier suffix read => ?_, errors⟩
      · have none : segment.countP (Event.computes key) = 0 := by
          refine List.countP_eq_zero.mpr fun event member computes => ?_
          cases event with
          | computed other it =>
              cases of_decide_eq_true computes
              exact first it member
          | set | deleted | cleared | read | got | returned => contradiction
        rw [events, List.countP_append, none]
        simp [Event.computes]
      · rw [lives]
        rfl
      · rw [lives, onlyOne member]
      · have ne : other ≠ thread := by
          rintro rfl
          exact noCheck getter item ((Function.update_self other _ s.goroutines).symm.trans checks)
        have checks := (Function.update_of_ne ne ..).symm.trans checks
        have readBefore : .read other key ∈ segment := by
          refine (List.mem_append.mp read).resolve_left fun member => ?_
          have reads := Goroutine.next_reads moved ne _ member
          simp [Event.reads] at reads
        have noSet : ∀ it, .set key it ∉ segment :=
          fun it member => free it (List.mem_append_right _ member)
        rcases between.snapshots noSet other getter item checks readBefore with gone | equal
        · exact .inl (alive_later gone later)
        · exact .inl (alive_later (equal.trans missing) later)
      · rw [lives]
        have noSet : ∀ it, .set key it ∉ segment :=
          fun it member => free it (List.mem_append_right _ member)
        rcases Goroutine.next_returned moved suffix with old | ⟨rfl, returns⟩
        · have lived := between.returned noSet other found earlier old read
          rw [missing] at lived
          contradiction
        · cases returns with
          | hit _ checks _ _ =>
              rw [checks] at computes
              contradiction
          | found _ checks _ _ =>
              rw [checks] at computes
              contradiction
          | computed other _ parts =>
              have member : .computed key other ∈ move.events ++ segment :=
                suffix.subset (parts ▸ List.mem_cons_of_mem _ List.mem_cons_self)
              rw [onlyOne member]
              rfl

theorem Segment.step {segment : List (Event K V)} {action : CacheAction K V}
    (between : Segment key segment s) (computing : Computing s) (lasts : s.lasts key action = true)
    (taken : cacheStep s action = some next) :
    ∃ events, next.history = events ++ s.history ∧ Segment key (events ++ segment) next := by
  cases action with
  | call thread method =>
      simp only [cacheStep] at taken
      split at taken
      · cases taken
        refine ⟨[], rfl, { between with snapshots := fun free other getter it checks => ?_ }⟩
        by_cases same : other = thread
        · subst same
          have checks := (Function.update_self other _ s.goroutines).symm.trans checks
          cases method <;> contradiction
        · exact between.snapshots free other getter it
            ((Function.update_of_ne same ..).symm.trans checks)
      · contradiction
  | advance thread answer => exact between.advance computing lasts taken

theorem Segment.run {actions : List (CacheAction K V)} {last : CacheState K V}
    (computing : Computing s) (run : Run cacheStep (fun s action => s.lasts key action = true) s actions last) :
    ∃ segment, last.history = segment ++ s.history ∧ Segment key segment last := by
  have invariant : Computing last ∧
      ∃ segment, last.history = segment ++ s.history ∧ Segment key segment last := by
    refine run.invariant (fun now => Computing now ∧
      ∃ segment, now.history = segment ++ s.history ∧ Segment key segment now) ?_
      ⟨computing, [], rfl, segment_nil s⟩
    rintro now action next lasts ⟨computing, segment, history, between⟩ taken
    rcases between.step computing lasts taken with ⟨events, history', between'⟩
    refine ⟨computing.step taken, events ++ segment, ?_, between'⟩
    rw [history', history, List.append_assoc]
  exact invariant.2

/-- The cache is a timed map in every run from a new one: a `Get` returns what the map had at
its read unless that has expired when it checks, only expired items are evicted, and while a
key's item neither expires nor is removed, its value is computed at most once. The calls that
return in that time, without a `Set` of the key, return the computed value, but for those
whose own function fails before. -/
theorem refines_timedMap {clock : Time} {actions : List (CacheAction K V)}
    (run : Run cacheStep (fun _ _ => True) (.new clock) actions s) :
    (∀ thread key now found earlier, .got thread key now found :: earlier <:+ s.history →
      ∃ before, ReadAt thread key earlier before ∧ found = lookup before key now) ∧
    (∀ thread answer next key it, cacheStep s (.advance thread answer) = some next →
      (s.goroutines thread).evicts = true → s.items key = some it →
      next.items key = some it ∨ next.items key = none ∧ it.isExpired next.clock = true) ∧
    ∀ key more last, Run cacheStep (fun s action => s.lasts key action = true) s more last →
      ∃ segment, last.history = segment ++ s.history ∧
        segment.countP (Event.computes key) ≤ 1 ∧
        ((∀ it, .set key it ∉ segment) → ∀ thread result earlier it,
          .returned thread key result :: earlier <:+ segment → .read thread key ∈ earlier →
          .computed key it ∈ segment →
          result = some it.value ∨ result = none ∧ .computed key it ∉ earlier) := by
  have sound : Refines s ∧ Computing s :=
    run.invariant (fun s => Refines s ∧ Computing s)
      (fun _ _ _ _ sound taken => ⟨sound.1.step taken, sound.2.step taken⟩)
      ⟨refines_new clock, computing_new clock⟩
  refine ⟨fun thread key now found earlier suffix => sound.1.answers _ _ suffix,
    fun thread answer next key it taken evicts found => evicts_expired taken evicts found,
    fun key more last lasts => ?_⟩
  rcases Segment.run sound.2 lasts with ⟨segment, history, between⟩
  refine ⟨segment, history, between.once, fun noSet thread result earlier it suffix read computed => ?_⟩
  have lives := between.value noSet it computed
  cases result with
  | none => exact .inr ⟨rfl, between.errors thread earlier suffix it⟩
  | some found =>
      have returned := between.returned noSet thread found earlier suffix read
      rw [lives] at returned
      exact .inl returned.symm

end

/-- A call of `GetOrSet` for the key 0 that finds nothing, up to the end of its function. -/
def computing (thread : Nat) (computed : Option (Nat × Int)) : List (CacheAction Nat Nat) :=
  .call thread (.getOrSet 0) ::
    List.replicate 4 (.advance thread { now := ⟨thread, 0⟩, computed })

/-- One call stores a value, `Set` another, and a third call finds that. -/
def overwriting : List (CacheAction Nat Nat) :=
  computing 0 (some (7, 0)) ++
    .call 1 (.set 0 8 0) :: .advance 1 { now := ⟨1, 0⟩ } ::
    .call 2 (.getOrSet 0) :: List.replicate 2 (.advance 2 { now := ⟨2, 0⟩ })

theorem refines_timedMap_overwriting :
    ∃ last : CacheState Nat Nat, .got 2 0 ⟨2, 0⟩ (some 8) ∈ last.history ∧
      ∀ thread key now found earlier, .got thread key now found :: earlier <:+ last.history →
        ∃ before, ReadAt thread key earlier before ∧ found = lookup before key now := by
  have executed : (Run.execute cacheStep (fun _ _ => true) (.new ⟨0, 0⟩) overwriting).map
      (fun last => decide (.got 2 0 ⟨2, 0⟩ (some 8) ∈ last.history)) = some true := by
    decide +kernel
  rcases Option.map_eq_some_iff.mp executed with ⟨last, execution, got⟩
  exact ⟨last, of_decide_eq_true got,
    (refines_timedMap ((Run.ofExecute execution).weaken fun _ _ _ => trivial)).1⟩

/-- Nothing expires and nothing is removed, and still not all callers get the value that was
computed: one has an error of its own, and one comes after a `Set`. -/
theorem getOrSet_callers_differ :
    (∃ last : CacheState Nat Nat, ∃ actions,
      Run cacheStep (fun s action => s.lasts 0 action = true) (.new ⟨0, 0⟩) actions last ∧
      .computed 0 (Item.stored 7 0 ⟨1, 0⟩) ∈ last.history ∧ .returned 0 0 none ∈ last.history) ∧
    ∃ last : CacheState Nat Nat, ∃ actions,
      Run cacheStep (fun s action => s.lasts 0 action = true) (.new ⟨0, 0⟩) actions last ∧
      .computed 0 (Item.stored 7 0 ⟨0, 0⟩) ∈ last.history ∧
      .returned 2 0 (some 8) ∈ last.history := by
  constructor
  · have executed : (Run.execute cacheStep (fun s action => s.lasts 0 action) (.new ⟨0, 0⟩)
        (computing 0 none ++ computing 1 (some (7, 0)))).map (fun last =>
          decide (.computed 0 (Item.stored 7 0 ⟨1, 0⟩) ∈ last.history ∧
            .returned 0 0 none ∈ last.history)) = some true := by
      decide +kernel
    rcases Option.map_eq_some_iff.mp executed with ⟨last, execution, happened⟩
    exact ⟨last, _, Run.ofExecute execution, of_decide_eq_true happened⟩
  · have executed : (Run.execute cacheStep (fun s action => s.lasts 0 action) (.new ⟨0, 0⟩)
        overwriting).map (fun last =>
          decide (.computed 0 (Item.stored 7 0 ⟨0, 0⟩) ∈ last.history ∧
            .returned 2 0 (some 8) ∈ last.history)) = some true := by
      decide +kernel
    rcases Option.map_eq_some_iff.mp executed with ⟨last, execution, happened⟩
    exact ⟨last, _, Run.ofExecute execution, of_decide_eq_true happened⟩

end Kiyomi.PluginSdk
