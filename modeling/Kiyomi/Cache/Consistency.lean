import Kiyomi.Cache.DiskCache

namespace Kiyomi.Cache

/-! # Images and their sidecars

Image and sidecar of a hash change together inside the lock, except that a purge removes
either at any moment. A hit breaks the pair: it writes back the sidecar that it read in
an earlier section, over whatever has been stored since. -/

namespace Files

/-- Where image and sidecar both exist, the sidecar has the content type, the content
length and the creation time of the store that wrote the image. -/
def consistent (files : Files) (hash : String) : Bool :=
  match files.images hash, files.sidecars hash with
  | some image, some sidecar => sidecar.content.any (·.sameEntry image.storedAs)
  | _, _ => true

theorem consistent_of_no_image {files : Files} {hash : String}
    (absent : files.images hash = none) : files.consistent hash = true := by
  simp [consistent, absent]

theorem consistent_of_no_sidecar {files : Files} {hash : String}
    (absent : files.sidecars hash = none) : files.consistent hash = true := by
  simp [consistent, absent]

theorem consistent_of_content {files : Files} {hash : String} {content : Meta}
    {modTime : Go.Time} (sidecar : files.sidecars hash = some ⟨some content, modTime⟩)
    (same : ∀ image, files.images hash = some image →
      content.sameEntry image.storedAs = true) : files.consistent hash = true := by
  cases image : files.images hash with
  | none => exact consistent_of_no_image image
  | some image' => simpa [consistent, image, sidecar] using same image' image

theorem consistent_congr {files files' : Files} {hash : String}
    (images : files'.images hash = files.images hash)
    (sidecars : files'.sidecars hash = files.sidecars hash) :
    files'.consistent hash = files.consistent hash := by
  rw [consistent, consistent, images, sidecars]

/-! ## Steps that only remove -/

structure Shrinks (files files' : Files) : Prop where
  images : ∀ hash, files'.images hash = files.images hash ∨ files'.images hash = none
  sidecars : ∀ hash, files'.sidecars hash = files.sidecars hash ∨ files'.sidecars hash = none

theorem Shrinks.refl (files : Files) : Shrinks files files :=
  ⟨fun _ => .inl rfl, fun _ => .inl rfl⟩

theorem Shrinks.consistent {files files' : Files} {hash : String}
    (shrinks : Shrinks files files') (consistent : files.consistent hash = true) :
    files'.consistent hash = true := by
  rcases shrinks.images hash with images | absent
  · rcases shrinks.sidecars hash with sidecars | absent
    · rw [consistent_congr images sidecars, consistent]
    · exact consistent_of_no_sidecar absent
  · exact consistent_of_no_image absent

theorem shrinks_setTemp (files : Files) (temp : Nat) (file : Option Temp) :
    Shrinks files (files.setTemp temp file) :=
  ⟨fun _ => .inl rfl, fun _ => .inl rfl⟩

theorem shrinks_removeTemp (files : Files) (temp : Nat) (answer : Answer) :
    Shrinks files (files.removeTemp temp answer) := by
  unfold removeTemp
  split
  · exact .refl files
  · exact shrinks_setTemp files temp none

theorem shrinks_removeImage (files : Files) (hash : String) (answer : Answer) :
    Shrinks files (files.removeImage hash answer) := by
  unfold removeImage
  split
  · exact .refl files
  · refine ⟨fun other => ?_, fun _ => .inl rfl⟩
    simp only [setImage, Function.update_apply]
    split
    · exact .inr rfl
    · exact .inl rfl

theorem shrinks_removeSidecar (files : Files) (hash : String) (answer : Answer) :
    Shrinks files (files.removeSidecar hash answer) := by
  unfold removeSidecar
  split
  · exact .refl files
  · refine ⟨fun _ => .inl rfl, fun other => ?_⟩
    simp only [setSidecar, Function.update_apply]
    split
    · exact .inr rfl
    · exact .inl rfl

/-! ## Writing a sidecar -/

@[simp] theorem writeSidecar_images (files : Files) (hash : String) (content : Meta)
    (answer : Answer) : (files.writeSidecar hash content answer).images = files.images := by
  unfold writeSidecar
  split
  · split <;> rfl
  · rfl

theorem writeSidecar_sidecars_ne (files : Files) {hash other : String} (content : Meta)
    (answer : Answer) (ne : other ≠ hash) :
    (files.writeSidecar hash content answer).sidecars other = files.sidecars other := by
  unfold writeSidecar
  split
  · split
    · exact Function.update_of_ne ne _ _
    · rfl
  · exact Function.update_of_ne ne _ _

theorem writeSidecar_consistent_ne (files : Files) {hash other : String} (content : Meta)
    (answer : Answer) (ne : other ≠ hash) :
    (files.writeSidecar hash content answer).consistent other = files.consistent other :=
  consistent_congr (by rw [writeSidecar_images])
    (writeSidecar_sidecars_ne files content answer ne)

/-- A completed write makes the pair consistent when it describes the image. -/
theorem writeSidecar_consistent {files : Files} {hash : String} {content : Meta}
    {answer : Answer} (completed : answer.fails = false)
    (same : ∀ image, files.images hash = some image →
      content.sameEntry image.storedAs = true) :
    (files.writeSidecar hash content answer).consistent hash = true := by
  have sidecar : (files.writeSidecar hash content answer).sidecars hash =
      some ⟨some content, answer.now⟩ := by
    simp [writeSidecar, completed, setSidecar]
  apply consistent_of_content sidecar
  rw [writeSidecar_images]
  exact same

end Files

/-! ## The lock -/

namespace Thread

/-- Between `Lock` and `Unlock`. -/
def holdsLock : Thread → Bool
  | .lookup _ _ (.writeFile _) | .lookup _ _ (.unlock _) => true
  | .store _ _ (.rename _ _) | .store _ _ (.writeFile _ _) | .store _ _ (.removeImage _)
  | .store _ _ (.unlock _ _) => true
  | _ => false

/-- The hash whose image this thread has renamed into place while its sidecar is not
settled yet. -/
def half : Thread → Option String
  | .store hash _ (.writeFile _ _) | .store hash _ (.removeImage _) => some hash
  | _ => none

theorem holdsLock_of_half {thread : Thread} {hash : String}
    (isHalf : thread.half = some hash) : thread.holdsLock = true := by
  unfold half at isHalf
  split at isHalf
  · rfl
  · rfl
  · contradiction

end Thread

/-- How a lock operation changes whether its thread holds the lock. -/
def LockStep.Fits (before after : Bool) : LockStep → Prop
  | .keep => after = before
  | .rLock | .rUnlock => after = false
  | .lock => True
  | .unlock => before = true ∧ after = false

theorem Caller.resume_holdsLock (caller : Caller) (hash : String) (found : Option Meta) :
    (caller.resume hash found).holdsLock = false := by
  cases caller <;> cases found <;> rfl

theorem Caller.resume_half (caller : Caller) (hash : String) (found : Option Meta) :
    (caller.resume hash found).half = none := by
  cases caller <;> cases found <;> rfl

section Steps

variable {cache : DiskCache} {files : Files} {flights : Flights} {answer : Answer}

theorem Lookup.fits (hash : String) (caller : Caller) (pc : Lookup) :
    LockStep.Fits (Thread.lookup hash caller pc).holdsLock
      (pc.next cache files flights answer hash caller).thread.holdsLock
      (pc.next cache files flights answer hash caller).locking := by
  cases pc with
  | rLock => rfl
  | stat =>
      simp only [Lookup.next]
      split <;> rfl
  | readFile => rfl
  | rUnlock hit =>
      cases hit with
      | none => exact caller.resume_holdsLock hash none
      | some found => rfl
  | lock copy => trivial
  | writeFile copy => rfl
  | unlock copy => exact ⟨rfl, caller.resume_holdsLock hash (some copy)⟩

theorem Store.fits {hash : String} {call : Nat} {pc : Store} {move : Move}
    (moved : pc.next files flights answer hash call = some move) :
    move.locking.Fits (Thread.store hash call pc).holdsLock move.thread.holdsLock := by
  cases pc with
  | unlock temp stored =>
      cases temp <;>
        · cases moved
          exact ⟨rfl, rfl⟩
  | lock stored temp => cases moved; trivial
  | removeImage temp => cases moved; rfl
  | removeTemp temp => cases moved; rfl
  | createTemp fetched =>
      simp only [Store.next] at moved
      split at moved
      · cases moved; rfl
      · split at moved
        · contradiction
        · cases moved; rfl
  | mkdirAll | fetch | copy | close | rename | writeFile =>
      simp only [Store.next] at moved
      split at moved <;>
        · cases moved
          rfl

theorem Purge.next_quiet {purge : Purge} {thread : Thread} {files' : Files}
    (moved : purge.next cache files answer = some (thread, files')) :
    thread.holdsLock = false ∧ thread.half = none := by
  unfold Purge.next at moved
  split at moved
  · split at moved <;>
      · cases moved
        exact ⟨rfl, rfl⟩
  · contradiction
  · split at moved <;>
      · cases moved
        exact ⟨rfl, rfl⟩

theorem Thread.fits {thread : Thread} {move : Move}
    (moved : thread.next cache files flights answer = some move) :
    move.locking.Fits thread.holdsLock move.thread.holdsLock := by
  cases thread with
  | free last => contradiction
  | lookup hash caller pc =>
      cases moved
      exact Lookup.fits hash caller pc
  | store hash call pc => exact Store.fits moved
  | purge state =>
      rcases Option.map_eq_some_iff.mp moved with ⟨⟨thread, files'⟩, purged, rfl⟩
      exact (Purge.next_quiet purged).1
  | openCached hash copy =>
      simp only [Thread.next] at moved
      split at moved <;>
        · cases moved
          rfl
  | join hash =>
      cases moved
      split <;> rfl
  | waiting hash call =>
      rcases Option.map_eq_some_iff.mp moved with ⟨result, _, rfl⟩
      rfl
  | finish hash call result => cases moved; rfl
  | openResult hash result => cases moved; rfl

/-! ## What a step does to the files -/

/-- The steps that write an image or a sidecar are told apart, all others at most
remove. -/
inductive Effect (files : Files) (answer : Answer) : Thread → Thread → Files → Prop
  | shrinks {thread next files'} (shrinks : Files.Shrinks files files')
      (before : thread.half = none) (after : next.half = none) :
      Effect files answer thread next files'
  | writeBack (hash caller copy) :
      Effect files answer (.lookup hash caller (.writeFile copy))
        (.lookup hash caller (.unlock copy)) (files.writeSidecar hash copy answer)
  | rename (hash call stored temp size modTime) :
      Effect files answer (.store hash call (.rename stored temp))
        (.store hash call (.writeFile stored temp))
        ((files.setTemp temp none).setImage hash (some ⟨size, modTime, stored⟩))
  | written (hash call stored temp) (completed : answer.fails = false) :
      Effect files answer (.store hash call (.writeFile stored temp))
        (.store hash call (.unlock none (some stored)))
        (files.writeSidecar hash stored answer)
  | refused (hash call stored temp) :
      Effect files answer (.store hash call (.writeFile stored temp))
        (.store hash call (.removeImage temp)) (files.writeSidecar hash stored answer)
  | removed (hash call temp) :
      Effect files answer (.store hash call (.removeImage temp))
        (.store hash call (.unlock (some temp) none)) (files.removeImage hash answer)

theorem Lookup.effect (hash : String) (caller : Caller) (pc : Lookup) :
    Effect files answer (.lookup hash caller pc)
      (pc.next cache files flights answer hash caller).thread
      (pc.next cache files flights answer hash caller).files := by
  cases pc with
  | writeFile copy => exact .writeBack hash caller copy
  | stat =>
      simp only [Lookup.next]
      split <;> exact .shrinks (.refl files) rfl rfl
  | rUnlock hit =>
      cases hit with
      | none => exact .shrinks (.refl files) rfl (caller.resume_half hash none)
      | some found => exact .shrinks (.refl files) rfl rfl
  | unlock copy => exact .shrinks (.refl files) rfl (caller.resume_half hash (some copy))
  | rLock | readFile | lock => exact .shrinks (.refl files) rfl rfl

theorem Store.effect {hash : String} {call : Nat} {pc : Store} {move : Move}
    (moved : pc.next files flights answer hash call = some move) :
    Effect files answer (.store hash call pc) move.thread move.files := by
  cases pc with
  | rename stored temp =>
      simp only [Store.next] at moved
      split at moved
      · cases moved
        exact .rename hash call stored temp _ _
      · cases moved
        exact .shrinks (.refl files) rfl rfl
  | writeFile stored temp =>
      simp only [Store.next] at moved
      split at moved
      · cases moved
        exact .refused hash call stored temp
      · rename_i completed
        cases moved
        exact .written hash call stored temp (by simpa using completed)
  | removeImage temp =>
      cases moved
      exact .removed hash call temp
  | removeTemp temp =>
      cases moved
      exact .shrinks (Files.shrinks_removeTemp files temp answer) rfl rfl
  | createTemp fetched =>
      simp only [Store.next] at moved
      split at moved
      · cases moved
        exact .shrinks (.refl files) rfl rfl
      · split at moved
        · contradiction
        · cases moved
          exact .shrinks (Files.shrinks_setTemp files _ _) rfl rfl
  | copy fetched temp =>
      have shrinks : Files.Shrinks files
          (if (files.temps temp).isSome then
            files.setTemp temp (some { size := answer.written, modTime := answer.now })
          else files) := by
        split
        · exact Files.shrinks_setTemp files _ _
        · exact .refl files
      simp only [Store.next] at moved
      split at moved <;>
        · cases moved
          exact .shrinks shrinks rfl rfl
  | unlock temp stored =>
      cases temp <;>
        · cases moved
          exact .shrinks (.refl files) rfl rfl
  | lock stored temp =>
      cases moved
      exact .shrinks (.refl files) rfl rfl
  | mkdirAll | fetch | close =>
      simp only [Store.next] at moved
      split at moved <;>
        · cases moved
          exact .shrinks (.refl files) rfl rfl

theorem Task.next_shrinks (now : Go.Time) (task : Task) :
    Files.Shrinks files (task.next cache now files answer).2 := by
  cases task with
  | removeExpired hash size => exact Files.shrinks_removeImage files hash answer
  | removeExpiredSidecar hash size => exact Files.shrinks_removeSidecar files hash answer
  | removeOrphan hash => exact Files.shrinks_removeSidecar files hash answer
  | removeTemp name => exact Files.shrinks_removeTemp files name answer
  | remove item => exact Files.shrinks_removeImage files item.hash answer
  | removeSidecar item => exact Files.shrinks_removeSidecar files item.hash answer
  | readFile hash size modTime =>
      simp only [Task.next, apply_ite Prod.snd, ite_self]
      exact .refl files
  | image | sidecar =>
      simp only [Task.next]
      split <;> exact .refl files
  | sidecarInfo | temp =>
      simp only [Task.next]
      split
      · split <;> exact .refl files
      · exact .refl files

theorem Purge.next_shrinks {purge : Purge} {thread : Thread} {files' : Files}
    (moved : purge.next cache files answer = some (thread, files')) :
    Files.Shrinks files files' := by
  unfold Purge.next at moved
  split at moved
  · split at moved <;>
      · cases moved
        exact .refl files
  · contradiction
  · rename_i before task after _ _
    have shrinks : Files.Shrinks files (task.next cache purge.now files answer).2 :=
      Task.next_shrinks purge.now task
    split at moved <;>
      · rename_i same
        rw [same] at shrinks
        cases moved
        exact shrinks

theorem Thread.effect {thread : Thread} {move : Move}
    (moved : thread.next cache files flights answer = some move) :
    Effect files answer thread move.thread move.files := by
  cases thread with
  | free last => contradiction
  | lookup hash caller pc =>
      cases moved
      exact Lookup.effect hash caller pc
  | store hash call pc => exact Store.effect moved
  | purge state =>
      rcases Option.map_eq_some_iff.mp moved with ⟨⟨thread, files'⟩, purged, rfl⟩
      exact .shrinks (Purge.next_shrinks purged) rfl (Purge.next_quiet purged).2
  | openCached hash copy =>
      simp only [Thread.next] at moved
      split at moved <;>
        · cases moved
          exact .shrinks (.refl files) rfl rfl
  | join hash =>
      cases moved
      split <;> exact .shrinks (.refl files) rfl rfl
  | waiting hash call =>
      rcases Option.map_eq_some_iff.mp moved with ⟨result, _, rfl⟩
      exact .shrinks (.refl files) rfl rfl
  | finish hash call result =>
      cases moved
      exact .shrinks (.refl files) rfl rfl
  | openResult hash result =>
      cases moved
      exact .shrinks (.refl files) rfl rfl

end Steps

/-! ## The invariant -/

namespace State

/-- Threads that hold the lock are its writer; an image that still waits for its sidecar
is that of the waiting store; every other pair is consistent. -/
structure Sound (s : State) : Prop where
  exclusive : ∀ thread, (s.threads thread).holdsLock = true → s.writer = some thread
  renamed : ∀ thread hash call stored temp,
    s.threads thread = .store hash call (.writeFile stored temp) →
    ∀ image, s.files.images hash = some image → image.storedAs = stored
  consistent : ∀ hash, s.files.consistent hash = true ∨
    ∃ thread, (s.threads thread).half = some hash

theorem Sound.opened {files : Files} (consistent : ∀ hash, files.consistent hash = true) :
    (opened files).Sound where
  exclusive _ holds := nomatch holds
  renamed _ _ _ _ _ isStore := nomatch isStore
  consistent hash := .inl (consistent hash)

variable {s next : State} {thread : Nat} {move : Move}

theorem apply_threads (applied : s.apply thread move = some next) :
    next.threads = Function.update s.threads thread move.thread ∧ next.files = move.files := by
  unfold apply at applied
  split at applied
  · cases applied; exact ⟨rfl, rfl⟩
  · split at applied
    · cases applied; exact ⟨rfl, rfl⟩
    · contradiction
  · cases applied; exact ⟨rfl, rfl⟩
  · split at applied
    · cases applied; exact ⟨rfl, rfl⟩
    · contradiction
  · cases applied; exact ⟨rfl, rfl⟩

/-- The lock keeps out whoever comes second. -/
theorem Sound.exclusive_apply (sound : s.Sound)
    (fits : move.locking.Fits (s.threads thread).holdsLock move.thread.holdsLock)
    (applied : s.apply thread move = some next) :
    ∀ other, (next.threads other).holdsLock = true → next.writer = some other := by
  have threads := (apply_threads applied).1
  intro other holds
  rw [threads, Function.update_apply] at holds
  unfold apply at applied
  cases locking : move.locking with
  | keep =>
      simp only [locking, Option.some.injEq] at applied fits
      subst applied
      split at holds
      · rename_i same
        subst same
        exact sound.exclusive other (fits ▸ holds)
      · exact sound.exclusive other holds
  | rLock =>
      simp only [locking, Option.ite_none_right_eq_some, Option.some.injEq] at applied fits
      rcases applied with ⟨_, rfl⟩
      split at holds
      · rw [fits] at holds
        contradiction
      · exact sound.exclusive other holds
  | rUnlock =>
      simp only [locking, Option.some.injEq] at applied fits
      subst applied
      split at holds
      · rw [fits] at holds
        contradiction
      · exact sound.exclusive other holds
  | lock =>
      simp only [locking, Option.ite_none_right_eq_some, Option.some.injEq, Bool.and_eq_true,
        Option.isNone_iff_eq_none] at applied
      rcases applied with ⟨⟨free, _⟩, rfl⟩
      split at holds
      · rename_i same
        rw [same]
      · rw [sound.exclusive other holds] at free
        contradiction
  | unlock =>
      simp only [locking, Option.some.injEq] at applied fits
      split at holds
      · rw [fits.2] at holds
        contradiction
      · rename_i ne
        have own := sound.exclusive thread fits.1
        rw [sound.exclusive other holds, Option.some.injEq] at own
        exact absurd own ne

/-! ## Steps keep the invariant -/

theorem Sound.half_alone (sound : s.Sound) {other : Nat} {hash : String}
    (holds : (s.threads thread).holdsLock = true)
    (isHalf : (s.threads other).half = some hash) : other = thread := by
  have own := sound.exclusive thread holds
  rw [sound.exclusive other (Thread.holdsLock_of_half isHalf), Option.some.injEq] at own
  exact own

/-- The holder of the lock settles a hash: no thread is left half way with it. -/
theorem Sound.settled (sound : s.Sound) (holds : (s.threads thread).holdsLock = true)
    (hash : String) (ne : (s.threads thread).half ≠ some hash) :
    s.files.consistent hash = true := by
  rcases sound.consistent hash with consistent | ⟨other, isHalf⟩
  · exact consistent
  · rw [sound.half_alone holds isHalf] at isHalf
    exact absurd isHalf ne

end State

/-- The write-back of a hit finds the image gone, or it completes and the image is that of
the store whose sidecar it read, or it fails before it touches the file; and a store whose
sidecar could not be written gets its image removed, unless the pair is in order. -/
def Thread.permits (files : Files) (answer : Answer) : Thread → Bool
  | .lookup hash _ (.writeFile copy) =>
      match files.images hash with
      | none => true
      | some image =>
          if answer.fails then !answer.torn else copy.sameEntry image.storedAs
  | .store hash _ (.removeImage _) => !answer.fails || files.consistent hash
  | _ => true

def State.permits (s : State) : Action → Bool
  | .advance thread answer => (s.threads thread).permits s.files answer
  | _ => true

namespace State

variable {s next : State} {thread : Nat} {move : Move}

/-- What a permitted write-back leaves of its pair. -/
theorem writeBack_consistent {files : Files} {answer : Answer} {hash : String}
    {caller : Caller} {copy : Meta} (before : files.consistent hash = true)
    (permitted :
      (Thread.lookup hash caller (.writeFile copy)).permits files answer = true) :
    (files.writeSidecar hash copy answer).consistent hash = true := by
  cases found : files.images hash with
  | none =>
      apply Files.consistent_of_no_image
      rw [Files.writeSidecar_images, found]
  | some image =>
      simp only [Thread.permits, found] at permitted
      cases fails : answer.fails with
      | true =>
          have untouched : answer.torn = false := by simpa [fails] using permitted
          simpa [Files.writeSidecar, fails, untouched] using before
      | false =>
          apply Files.writeSidecar_consistent fails
          intro image' same
          rw [found, Option.some.injEq] at same
          subst same
          simpa [fails] using permitted

/-- The pairs after a permitted step, once the thread has moved. -/
theorem Sound.consistent_effect (sound : s.Sound) {answer : Answer} {after : Thread}
    {files : Files} (effect : Effect s.files answer (s.threads thread) after files)
    (permitted : (s.threads thread).permits s.files answer = true) (hash : String) :
    files.consistent hash = true ∨ after.half = some hash ∨
      ∃ other, other ≠ thread ∧ (s.threads other).half = some hash := by
  generalize before : s.threads thread = pc at effect permitted
  have settled : pc.holdsLock = true → pc.half ≠ some hash →
      s.files.consistent hash = true := by
    subst before
    exact fun holds => sound.settled holds hash
  cases effect with
  | shrinks shrinks quiet _ =>
      rcases sound.consistent hash with consistent | ⟨other, isHalf⟩
      · exact .inl (shrinks.consistent consistent)
      · refine .inr (.inr ⟨other, ?_, isHalf⟩)
        rintro rfl
        rw [before, quiet] at isHalf
        contradiction
  | writeBack own caller copy =>
      left
      have consistent := settled rfl nofun
      by_cases same : hash = own
      · subst same
        exact writeBack_consistent consistent permitted
      · rwa [Files.writeSidecar_consistent_ne _ _ _ same]
  | rename own call stored temp size modTime =>
      by_cases same : hash = own
      · exact .inr (.inl (by rw [same]; rfl))
      · left
        have images : ((s.files.setTemp temp none).setImage own
            (some ⟨size, modTime, stored⟩)).images hash = s.files.images hash :=
          Function.update_of_ne same _ _
        rw [Files.consistent_congr images rfl]
        exact settled rfl nofun
  | written own call stored temp completed =>
      left
      by_cases same : hash = own
      · subst same
        apply Files.writeSidecar_consistent completed
        intro image found
        rw [sound.renamed thread hash call stored temp before image found]
        simp [Meta.sameEntry]
      · rw [Files.writeSidecar_consistent_ne _ _ _ same]
        exact settled rfl fun other => same (Option.some.inj other).symm
  | refused own call stored temp =>
      by_cases same : hash = own
      · exact .inr (.inl (by rw [same]; rfl))
      · left
        rw [Files.writeSidecar_consistent_ne _ _ _ same]
        exact settled rfl fun other => same (Option.some.inj other).symm
  | removed own call temp =>
      left
      by_cases same : hash = own
      · subst same
        cases fails : answer.fails with
        | true =>
            simpa [Files.removeImage, fails, Thread.permits] using permitted
        | false =>
            apply Files.consistent_of_no_image
            simp [Files.removeImage, fails, Files.setImage]
      · apply (Files.shrinks_removeImage s.files own answer).consistent
        exact settled rfl fun other => same (Option.some.inj other).symm

/-- A store at its sidecar still faces its own image, or none. -/
theorem Sound.renamed_effect (sound : s.Sound) {answer : Answer} {after : Thread}
    {files : Files} (effect : Effect s.files answer (s.threads thread) after files) :
    ∀ other hash call stored temp,
      Function.update s.threads thread after other = .store hash call (.writeFile stored temp) →
      ∀ image, files.images hash = some image → image.storedAs = stored := by
  intro other hash call stored temp isStore image found
  generalize before : s.threads thread = pc at effect
  -- A thread that stays at its sidecar while this one moves without writing an image.
  have stays (ne : other ≠ thread) (images : files.images hash = s.files.images hash ∨
      files.images hash = none) : image.storedAs = stored := by
    rw [Function.update_of_ne ne] at isStore
    rcases images with same | absent
    · rw [same] at found
      exact sound.renamed other hash call stored temp isStore image found
    · rw [absent] at found
      contradiction
  cases effect with
  | shrinks shrinks _ quiet =>
      by_cases same : other = thread
      · rw [same, Function.update_self] at isStore
        rw [isStore] at quiet
        contradiction
      · exact stays same (shrinks.images hash)
  | rename own call' stored' temp' size modTime =>
      by_cases same : other = thread
      · rw [same, Function.update_self] at isStore
        cases isStore
        simp only [Files.setImage, Function.update_self, Option.some.injEq] at found
        rw [← found]
      · exfalso
        rw [Function.update_of_ne same] at isStore
        have isHalf : (s.threads other).half = some hash := by rw [isStore]; rfl
        exact same (sound.half_alone (by rw [before]; rfl) isHalf)
  | writeBack | written | refused =>
      by_cases same : other = thread
      · rw [same, Function.update_self] at isStore
        cases isStore
      · exact stays same (.inl (by rw [Files.writeSidecar_images]))
  | removed own call' temp' =>
      by_cases same : other = thread
      · rw [same, Function.update_self] at isStore
        cases isStore
      · exact stays same ((Files.shrinks_removeImage s.files own answer).images hash)

theorem Sound.advance (sound : s.Sound) {cache : DiskCache} {answer : Answer}
    (permitted : (s.threads thread).permits s.files answer = true)
    (moved : (s.threads thread).next cache s.files s.flights answer = some move)
    (applied : s.apply thread move = some next) : next.Sound := by
  have effect := Thread.effect moved
  rcases apply_threads applied with ⟨threads, files⟩
  refine ⟨sound.exclusive_apply (Thread.fits moved) applied, ?_, fun hash => ?_⟩
  · rw [threads, files]
    exact sound.renamed_effect effect
  · rw [threads, files]
    rcases sound.consistent_effect effect permitted hash with
      consistent | own | ⟨other, ne, isHalf⟩
    · exact .inl consistent
    · exact .inr ⟨thread, by rw [Function.update_self, own]⟩
    · exact .inr ⟨other, by rw [Function.update_of_ne ne, isHalf]⟩

/-- A thread outside the lock that goes on without touching a file. -/
theorem Sound.setThread (sound : s.Sound) {after : Thread} (before : (s.threads thread).half = none)
    (holds : after.holdsLock = false) (quiet : after.half = none) :
    (s.setThread thread after).Sound := by
  have effect : Effect s.files {} (s.threads thread) after s.files :=
    .shrinks (.refl s.files) before quiet
  refine ⟨fun other => ?_, sound.renamed_effect effect, fun hash => ?_⟩
  · simp only [State.setThread, Function.update_apply]
    split
    · rw [holds]
      exact nofun
    · exact sound.exclusive other
  · rcases sound.consistent hash with consistent | ⟨other, isHalf⟩
    · exact .inl consistent
    · refine .inr ⟨other, ?_⟩
      have ne : other ≠ thread := by
        rintro rfl
        rw [before] at isHalf
        contradiction
      simp only [State.setThread, Function.update_of_ne ne, isHalf]

theorem Sound.visit (sound : s.Sound) {task : Task} (visited : s.visit thread task = some next) :
    next.Sound := by
  unfold State.visit at visited
  split at visited
  · rename_i state isPurge
    split at visited
    · contradiction
    · cases visited
      exact sound.setThread (by rw [isPurge]; rfl) rfl rfl
  · contradiction

theorem Sound.step (sound : s.Sound) {cache : DiskCache} {action : Action}
    (permitted : s.permits action = true) (taken : cache.step s action = some next) :
    next.Sound := by
  cases action with
  | call thread operation =>
      simp only [DiskCache.step] at taken
      split at taken
      · rename_i last isFree
        cases taken
        apply sound.setThread (by rw [isFree]; rfl) <;> cases operation <;> rfl
      · contradiction
  | advance thread answer =>
      rcases Option.bind_eq_some_iff.mp taken with ⟨move, moved, applied⟩
      exact sound.advance permitted moved applied
  | visitImage thread hash => exact sound.visit taken
  | visitSidecar thread hash => exact sound.visit taken
  | visitTemp thread temp => exact sound.visit taken

/-! ## Quiet hashes -/

end State

/-- An operation on the hash is in progress; a purge works on all of them. -/
def Thread.worksOn (hash : String) : Thread → Bool
  | .free _ => false
  | .lookup own _ _ | .openCached own _ | .join own | .waiting own _ | .store own _ _
  | .finish own _ _ | .openResult own _ => own == hash
  | .purge _ => true

namespace State

variable {s : State}

theorem Sound.consistent_of_quiet (sound : s.Sound) {hash : String}
    (quiet : ∀ thread, (s.threads thread).worksOn hash = false) :
    s.files.consistent hash = true := by
  rcases sound.consistent hash with consistent | ⟨thread, isHalf⟩
  · exact consistent
  · have idle := quiet thread
    unfold Thread.half at isHalf
    split at isHalf
    · rename_i isStore
      cases isHalf
      simp [isStore, Thread.worksOn] at idle
    · rename_i isStore
      cases isHalf
      simp [isStore, Thread.worksOn] at idle
    · contradiction

end State

/-- In every run from a cache opened on a consistent directory in which hits write back
the sidecar of the image that is there, a hash that nobody works on has a sidecar of the
store that wrote its image, if it has both files. -/
theorem consistent_of_permitted {cache : DiskCache} {files : Files} {actions : List Action}
    {last : State} (initially : ∀ hash, files.consistent hash = true)
    (run : Run cache.step (fun s action => s.permits action = true) (.opened files) actions last)
    (hash : String) (quiet : ∀ thread, (last.threads thread).worksOn hash = false) :
    last.files.consistent hash = true := by
  have sound : last.Sound :=
    run.invariant State.Sound (fun _ _ _ permitted sound taken => sound.step permitted taken)
      (State.Sound.opened initially)
  exact sound.consistent_of_quiet quiet

/-! ## Two runs -/

def Action.thread : Action → Nat
  | .call thread _ | .advance thread _ | .visitImage thread _ | .visitSidecar thread _
  | .visitTemp thread _ => thread

theorem step_threads_ne {cache : DiskCache} {s next : State} {action : Action} {other : Nat}
    (taken : cache.step s action = some next) (ne : other ≠ action.thread) :
    next.threads other = s.threads other := by
  have ofVisit {thread : Nat} {task : Task} (visited : s.visit thread task = some next)
      (ne : other ≠ thread) : next.threads other = s.threads other := by
    unfold State.visit at visited
    split at visited
    · split at visited
      · contradiction
      · cases visited
        exact Function.update_of_ne ne _ _
    · contradiction
  cases action with
  | call thread operation =>
      simp only [DiskCache.step] at taken
      split at taken
      · cases taken
        exact Function.update_of_ne ne _ _
      · contradiction
  | advance thread answer =>
      rcases Option.bind_eq_some_iff.mp taken with ⟨move, _, applied⟩
      rw [(State.apply_threads applied).1]
      exact Function.update_of_ne ne _ _
  | visitImage thread hash => exact ofVisit taken ne
  | visitSidecar thread hash => exact ofVisit taken ne
  | visitTemp thread temp => exact ofVisit taken ne

/-- Threads that a run does not use stay free. -/
theorem quiet_of_unused {cache : DiskCache} {files : Files} {actions : List Action}
    {last : State} {bound : Nat} {hash : String}
    (run : Run cache.step (fun _ action => action.thread < bound) (.opened files) actions last)
    (used : ∀ thread ∈ List.range bound, (last.threads thread).worksOn hash = false) :
    ∀ thread, (last.threads thread).worksOn hash = false := by
  have unused : ∀ thread, bound ≤ thread → last.threads thread = .free none := by
    apply run.invariant fun s => ∀ thread, bound ≤ thread → s.threads thread = .free none
    · intro s action next inBound free taken thread above
      rw [step_threads_ne taken (by omega)]
      exact free thread above
    · exact fun _ _ => rfl
  intro thread
  by_cases inBound : thread < bound
  · exact used thread (List.mem_range.mpr inBound)
  · rw [unused thread (by omega)]
    rfl

/-- A miss of `GetOrFetch` that downloads and stores five bytes. -/
def downloading (thread : Nat) (hash contentType : String) : List Action :=
  .call thread (.getOrFetch hash) ::
    List.replicate 18 (.advance thread
      { now := ⟨0, 0⟩
        fetched := { Meta.zero with contentType, contentLength := 5 }
        written := 5
        temp := thread })

/-- A cache miss, then a hit that has the cache to itself. -/
theorem consistent_of_permitted_hit :
    ∃ last,
      Run (DiskCache.step { ttl := 0, maxBytes := 1 }) (fun s action => s.permits action = true)
        (.opened .empty)
        (downloading 0 "ab" "image/jpeg" ++
          .call 1 (.getPath "ab") :: List.replicate 7 (.advance 1 {})) last ∧
      (last.files.sidecars "ab").isSome = true ∧ last.files.consistent "ab" = true := by
  have executed : (Run.execute (DiskCache.step { ttl := 0, maxBytes := 1 })
      (fun s action => s.permits action && decide (action.thread < 2)) (.opened .empty)
      (downloading 0 "ab" "image/jpeg" ++
        .call 1 (.getPath "ab") :: List.replicate 7 (.advance 1 {}))).map (fun last =>
          ((last.files.sidecars "ab").isSome,
            (List.range 2).map fun thread => (last.threads thread).worksOn "ab")) =
      some (true, [false, false]) := by decide +kernel
  rcases Option.map_eq_some_iff.mp executed with ⟨last, execution, observed⟩
  simp only [Prod.mk.injEq] at observed
  have run := Run.ofExecute execution
  have permitted : Run (DiskCache.step { ttl := 0, maxBytes := 1 })
      (fun s action => s.permits action = true) (.opened .empty) _ last :=
    run.weaken fun _ _ allowed => (Bool.and_eq_true_iff.mp allowed).1
  have inBound : Run (DiskCache.step { ttl := 0, maxBytes := 1 })
      (fun _ action => action.thread < 2) (.opened .empty) _ last :=
    run.weaken fun _ _ allowed => of_decide_eq_true (Bool.and_eq_true_iff.mp allowed).2
  refine ⟨last, permitted, observed.1, ?_⟩
  apply consistent_of_permitted (fun _ => rfl) permitted
  apply quiet_of_unused inBound
  simpa [List.range_succ] using observed.2

/-- A hit reads the sidecar of a JPEG and leaves its section; a purge evicts the image,
another download stores a PNG; then the hit writes back what it read. -/
theorem hit_overwrites_newer_sidecar :
    ∃ cache actions last,
      Run (DiskCache.step cache) (fun _ _ => True) (.opened .empty) actions last ∧
      (∀ thread, (last.threads thread).worksOn "ab" = false) ∧
      last.files.consistent "ab" = false := by
  let actions : List Action :=
    downloading 0 "ab" "image/jpeg" ++
      .call 1 (.getPath "ab") :: List.replicate 4 (.advance 1 {}) ++
      .call 2 (.purgeExpiredAndLRU ⟨0, 0⟩) :: .visitImage 2 "ab" ::
        List.replicate 6 (.advance 2 {}) ++
      downloading 3 "ab" "image/png" ++
      List.replicate 3 (.advance 1 {})
  have executed : (Run.execute (DiskCache.step { ttl := 0, maxBytes := 1 })
      (fun _ action => decide (action.thread < 4)) (.opened .empty) actions).map (fun last =>
          (last.files.consistent "ab",
            (List.range 4).map fun thread => (last.threads thread).worksOn "ab")) =
      some (false, [false, false, false, false]) := by decide +kernel
  rcases Option.map_eq_some_iff.mp executed with ⟨last, execution, observed⟩
  simp only [Prod.mk.injEq] at observed
  have inBound : Run (DiskCache.step { ttl := 0, maxBytes := 1 })
      (fun _ action => action.thread < 4) (.opened .empty) actions last :=
    (Run.ofExecute execution).weaken fun _ _ allowed => of_decide_eq_true allowed
  refine ⟨_, actions, last, inBound.weaken fun _ _ _ => trivial, ?_, observed.1⟩
  apply quiet_of_unused inBound
  simpa [List.range_succ] using observed.2

end Kiyomi.Cache
