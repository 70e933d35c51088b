import Kiyomi.Foundation.Run

namespace Kiyomi.Web

/-! # The reader's progress tracker

`useReaderProgressTracker` as a state machine. A render reads the options and the page
that the queued updates leave. Then the effects whose dependencies changed run in the
order of their declaration, on the values of that render. -/

/-- The `page` parameter of the URL. -/
inductive SearchPage
  /-- `undefined`, `null` or the empty string. -/
  | absent
  | last
  /-- Any other value with what `Number` makes of it, nothing for `NaN`. -/
  | other (raw : String) (number : Option Rat)
  deriving DecidableEq

/-- `UseReaderProgressTrackerOptions`. A callback is known by its identity. -/
structure Options where
  effectiveMangaId : Option String
  chapterId : String
  chapterProviderId : Option String
  pagesCount : Nat
  isPaged : Bool
  isChapterRead : Bool
  chapterLastReadPage : Rat
  searchPage : SearchPage
  hasNextChapter : Bool
  userStatus : Option String
  onScrollToPage : Option Nat
  onUpdateProgress : Option Nat
  deriving DecidableEq

/-- The value of an optional string where the code asks whether it is truthy. -/
def truthy (value : Option String) : Bool := value.any (· != "")

/-- The number of the last page. -/
def Options.lastPage (o : Options) : Rat := Rat.ofInt o.pagesCount

def Options.clampPage (o : Options) (page : Rat) : Rat :=
  let atLeastOne := if 1 ≤ page then page else 1
  if atLeastOne ≤ o.lastPage then atLeastOne else o.lastPage

/-- `targetResumePage` of the effect that restores the position. -/
def Options.targetResumePage (o : Options) : Rat :=
  let fromProgress := if !o.isChapterRead && 1 < o.chapterLastReadPage then
      o.clampPage o.chapterLastReadPage
    else 1
  match o.searchPage with
  | .last => o.lastPage
  | .other _ (some parsedPage) => o.clampPage parsedPage
  | .other _ none | .absent => fromProgress

/-- Updates of the current page and calls of `onUpdateProgress`. -/
inductive Event
  /-- The current page was set while the chapter was shown. -/
  | set (chapterId : String) (page : Rat)
  /-- The automatic update with `is_read: true`. -/
  | autoRead (mangaId : Option String) (chapterId : String) (providerId : Option String)
      (lastReadPage : Rat)
  | saved (mangaId : Option String) (chapterId : String) (providerId : Option String)
      (lastReadPage : Rat)
  /-- The update of `markChapterRead`. -/
  | markedRead (mangaId : Option String) (chapterId : String) (providerId : Option String)
      (lastReadPage : Option Rat)
  deriving DecidableEq

/-- State, refs and bookkeeping of the hook. The one timer that can be pending is the one
in `saveTimeoutRef`: a new timer is stored only after the old one is cleared. -/
structure Tracker where
  /-- The page with all queued updates applied, which the next render reads. -/
  currentPage : Rat
  showCompletionDialog : Bool
  activeChapterIdRef : Option String
  hasMarkedRead : Bool
  hasResumed : Bool
  hasDismissedCompletion : Bool
  /-- The options and the page of the render that started the pending timer. -/
  saveTimeout : Option (Options × Rat)
  /-- The options and the page of the last render. -/
  rendered : Option (Options × Rat)
  /-- Whether the last run of the saving effect returned its cleanup function. -/
  hasCleanup : Bool
  /-- Newest first. -/
  history : List Event

namespace Tracker

def initial : Tracker where
  currentPage := 1
  showCompletionDialog := false
  activeChapterIdRef := none
  hasMarkedRead := false
  hasResumed := false
  hasDismissedCompletion := false
  saveTimeout := none
  rendered := none
  hasCleanup := false
  history := []

/-- `onUpdateProgress?.(…)`. -/
def notify (t : Tracker) (o : Options) (event : Event) : Tracker :=
  if o.onUpdateProgress.isSome then { t with history := event :: t.history } else t

/-- The effect that resets the refs on a chapter switch. -/
def resetEffect (o : Options) (t : Tracker) : Tracker :=
  if t.activeChapterIdRef ≠ some o.chapterId then
    { t with
      activeChapterIdRef := some o.chapterId
      hasMarkedRead := o.isChapterRead
      hasResumed := false
      hasDismissedCompletion := false
      saveTimeout := none }
  else t

/-- The effect that restores the reading position. Scrolling the window changes nothing
here. -/
def resumeEffect (o : Options) (t : Tracker) : Tracker :=
  if o.chapterId = "" ∨ o.pagesCount = 0 ∨ t.hasResumed then t
  else
    { t with
      hasResumed := true
      currentPage := o.targetResumePage
      history := .set o.chapterId o.targetResumePage :: t.history }

/-- The effect that saves the page after a while, or marks the chapter as read on its
last page. -/
def saveEffect (o : Options) (page : Rat) (t : Tracker) : Tracker :=
  if !truthy o.effectiveMangaId || o.chapterId == "" || o.pagesCount == 0 || !t.hasResumed then
    { t with hasCleanup := false }
  else if page = o.lastPage then
    let t := { t with saveTimeout := none, hasCleanup := false }
    if t.hasMarkedRead then t
    else
      let t := notify { t with hasMarkedRead := true } o
        (.autoRead o.effectiveMangaId o.chapterId o.chapterProviderId page)
      if !o.hasNextChapter && !t.hasDismissedCompletion && o.userStatus == some "reading" then
        { t with hasDismissedCompletion := true, showCompletionDialog := true }
      else t
  else { t with saveTimeout := some (o, page), hasCleanup := true }

/-- The dependency array of the effect that resets. -/
def resetDeps (o : Options) := (o.chapterId, o.isChapterRead)

/-- The dependency array of the effect that restores the position. -/
structure ResumeDeps where
  chapterId : String
  pagesCount : Nat
  searchPage : SearchPage
  isChapterRead : Bool
  chapterLastReadPage : Rat
  isPaged : Bool
  onScrollToPage : Option Nat
  deriving DecidableEq

def resumeDeps (o : Options) : ResumeDeps where
  chapterId := o.chapterId
  pagesCount := o.pagesCount
  searchPage := o.searchPage
  isChapterRead := o.isChapterRead
  chapterLastReadPage := o.chapterLastReadPage
  isPaged := o.isPaged
  onScrollToPage := o.onScrollToPage

/-- The dependency array of the effect that saves. -/
structure SaveDeps where
  currentPage : Rat
  effectiveMangaId : Option String
  chapterId : String
  chapterProviderId : Option String
  pagesCount : Nat
  hasNextChapter : Bool
  userStatus : Option String
  onUpdateProgress : Option Nat
  deriving DecidableEq

def saveDeps (o : Options) (page : Rat) : SaveDeps where
  currentPage := page
  effectiveMangaId := o.effectiveMangaId
  chapterId := o.chapterId
  chapterProviderId := o.chapterProviderId
  pagesCount := o.pagesCount
  hasNextChapter := o.hasNextChapter
  userStatus := o.userStatus
  onUpdateProgress := o.onUpdateProgress

/-- An effect runs on the first render and whenever its dependencies changed. -/
def changed [DecidableEq Deps] (t : Tracker) (deps : Options → Rat → Deps) (o : Options)
    (page : Rat) : Bool :=
  t.rendered.map (fun last => deps last.1 last.2) != some (deps o page)

/-- A render with its effects; the cleanup of an effect that runs again comes first. -/
def render (o : Options) (t : Tracker) : Tracker :=
  let page := t.currentPage
  let resets := t.changed (fun o _ => resetDeps o) o page
  let resumes := t.changed (fun o _ => resumeDeps o) o page
  let saves := t.changed saveDeps o page
  let t := if saves && t.hasCleanup then { t with saveTimeout := none } else t
  let t := if resets then resetEffect o t else t
  let t := if resumes then resumeEffect o t else t
  let t := if saves then saveEffect o page t else t
  { t with rendered := some (o, page) }

end Tracker

inductive Action
  | render (options : Options)
  /-- `setCurrentPage` with the function from the previous page to the next. -/
  | setCurrentPage (update : Rat → Rat)
  | setShowCompletionDialog (shown : Bool)
  | markChapterRead (lastReadPage : Option Rat)
  /-- The timer of the saving effect fires. -/
  | fireTimeout

namespace Tracker

def step : StepFunction Tracker Action
  | t, .render o => some (t.render o)
  | t, .setCurrentPage update =>
      t.rendered.map fun (o, _) =>
        { t with
          currentPage := update t.currentPage
          history := .set o.chapterId (update t.currentPage) :: t.history }
  | t, .setShowCompletionDialog shown => some { t with showCompletionDialog := shown }
  | t, .markChapterRead lastReadPage =>
      t.rendered.map fun (o, _) =>
        if truthy o.effectiveMangaId && o.chapterId != "" then
          notify { t with hasMarkedRead := true } o
            (.markedRead o.effectiveMangaId o.chapterId o.chapterProviderId lastReadPage)
        else t
  | t, .fireTimeout =>
      t.saveTimeout.map fun (o, page) =>
        notify { t with saveTimeout := none } o
          (.saved o.effectiveMangaId o.chapterId o.chapterProviderId page)

/-- Every automatic update marks a chapter whose last page had been set as the current
page while the chapter was shown. -/
def ReadAfterLastPage (history : List Event) : Prop :=
  ∀ later earlier mangaId chapterId providerId lastPage,
    history = later ++ .autoRead mangaId chapterId providerId lastPage :: earlier →
    .set chapterId lastPage ∈ earlier

/-- The render restores the position of its chapter. -/
def restores (t : Tracker) (o : Options) : Bool :=
  o.chapterId != "" && o.pagesCount != 0 &&
    (t.activeChapterIdRef != some o.chapterId || !t.hasResumed)

/-- The page left over from before is the last page of a chapter that is not marked. -/
def leftOnLastPage (t : Tracker) (o : Options) : Bool :=
  truthy o.effectiveMangaId && o.onUpdateProgress.isSome && t.currentPage == o.lastPage &&
    !(if t.activeChapterIdRef ≠ some o.chapterId then o.isChapterRead else t.hasMarkedRead)

/-- A render that restores the position does not find the page of another chapter equal to
the number of pages of its own, unless it restores that page, or the page had been set for
its chapter before. -/
def keepsUnread (t : Tracker) : Action → Bool
  | .render o =>
      !(t.restores o && t.leftOnLastPage o) || o.targetResumePage == o.lastPage ||
        t.history.contains (.set o.chapterId o.lastPage)
  | _ => true

/-- What holds between the actions. -/
structure Tracked (t : Tracker) : Prop where
  /-- After the position was restored, the page was set for the active chapter. -/
  resumed : t.hasResumed = true → ∀ chapterId, t.activeChapterIdRef = some chapterId →
    .set chapterId t.currentPage ∈ t.history
  /-- The last render left its chapter active, and restored if there were pages. -/
  rendered : ∀ o page, t.rendered = some (o, page) → t.activeChapterIdRef = some o.chapterId ∧
    (o.chapterId ≠ "" → o.pagesCount ≠ 0 → t.hasResumed = true)
  unrendered : t.rendered = none → t.activeChapterIdRef = none

variable {t t' : Tracker} {o : Options}

/-! ## Histories -/

theorem readAfterLastPage_cons {event : Event} {history : List Event} :
    ReadAfterLastPage (event :: history) ↔ ReadAfterLastPage history ∧
      ∀ mangaId chapterId providerId lastPage,
        event = .autoRead mangaId chapterId providerId lastPage →
        .set chapterId lastPage ∈ history := by
  constructor
  · intro rule
    refine ⟨fun later earlier mangaId chapterId providerId lastPage split => ?_,
      fun mangaId chapterId providerId lastPage isRead => ?_⟩
    · exact rule (event :: later) earlier mangaId chapterId providerId lastPage (by
        rw [split]
        rfl)
    · exact rule [] history mangaId chapterId providerId lastPage (by rw [isRead]; rfl)
  · intro rules later earlier mangaId chapterId providerId lastPage split
    cases later with
    | nil =>
        rw [List.nil_append, List.cons.injEq] at split
        rw [← split.2]
        exact rules.2 mangaId chapterId providerId lastPage split.1
    | cons first later =>
        rw [List.cons_append, List.cons.injEq] at split
        exact rules.1 later earlier mangaId chapterId providerId lastPage split.2

/-- An event of another kind keeps the rule. -/
theorem ReadAfterLastPage.other {event : Event} {history : List Event}
    (rule : ReadAfterLastPage history)
    (notRead : ∀ mangaId chapterId providerId lastPage,
      event ≠ .autoRead mangaId chapterId providerId lastPage) :
    ReadAfterLastPage (event :: history) :=
  readAfterLastPage_cons.mpr ⟨rule, fun mangaId chapterId providerId lastPage isRead =>
    absurd isRead (notRead mangaId chapterId providerId lastPage)⟩

/-! ## What a render does -/

/-- After the chapter switch, if there is one. -/
theorem resetEffect_spec (o : Options) (t : Tracker) :
    (resetEffect o t).activeChapterIdRef = some o.chapterId ∧
    (resetEffect o t).currentPage = t.currentPage ∧ (resetEffect o t).history = t.history ∧
    (resetEffect o t).hasResumed =
      (t.activeChapterIdRef == some o.chapterId && t.hasResumed) ∧
    (resetEffect o t).hasMarkedRead =
      (if t.activeChapterIdRef ≠ some o.chapterId then o.isChapterRead else t.hasMarkedRead) := by
  unfold resetEffect
  by_cases active : t.activeChapterIdRef = some o.chapterId
  · simp [active]
  · simp [active]

/-- The dependencies of the reset cover every switch. -/
theorem resetEffect_of_unchanged (tracked : t.Tracked) (page : Rat)
    (unchanged : t.changed (fun o _ => resetDeps o) o page = false) : resetEffect o t = t := by
  simp only [changed, bne_eq_false_iff_eq, Option.map_eq_some_iff] at unchanged
  rcases unchanged with ⟨last, isLast, same⟩
  have active := (tracked.rendered last.1 last.2 isLast).1
  have sameChapter : last.1.chapterId = o.chapterId := congrArg Prod.fst same
  rw [resetEffect, if_neg (by rw [active, sameChapter]; exact not_not_intro rfl)]

/-- The dependencies of the other two effects cover every render that restores. -/
theorem not_restores_of_unchanged (tracked : t.Tracked) {lastOptions : Options} {page : Rat}
    (isLast : t.rendered = some (lastOptions, page))
    (sameChapter : lastOptions.chapterId = o.chapterId)
    (samePages : lastOptions.pagesCount = o.pagesCount) : t.restores o = false := by
  rcases tracked.rendered lastOptions page isLast with ⟨active, resumed⟩
  rw [sameChapter, samePages] at resumed
  rw [sameChapter] at active
  simp only [restores, active, bne_self_eq_false, Bool.false_or, Bool.and_eq_false_iff]
  by_cases noChapter : o.chapterId = ""
  · simp [noChapter]
  by_cases noPages : o.pagesCount = 0
  · simp [noPages]
  · simp [resumed noChapter noPages]

theorem resumes_of_restores (tracked : t.Tracked) (restores : t.restores o = true) {page : Rat} :
    t.changed (fun o _ => resumeDeps o) o page = true ∧ t.changed saveDeps o page = true := by
  have changes : ∀ last : Options × Rat, t.rendered = some last →
      ¬ (last.1.chapterId = o.chapterId ∧ last.1.pagesCount = o.pagesCount) := by
    intro last isLast same
    have not_restores := not_restores_of_unchanged tracked isLast same.1 same.2
    rw [restores] at not_restores
    contradiction
  simp only [changed, bne_iff_ne, ne_eq, Option.map_eq_some_iff]
  constructor
  · intro unchanged
    rcases unchanged with ⟨last, isLast, same⟩
    exact changes last isLast
      ⟨congrArg ResumeDeps.chapterId same, congrArg ResumeDeps.pagesCount same⟩
  · intro unchanged
    rcases unchanged with ⟨last, isLast, same⟩
    exact changes last isLast
      ⟨congrArg SaveDeps.chapterId same, congrArg SaveDeps.pagesCount same⟩

/-- The state after the first two effects of a render. -/
def positioned (o : Options) (t : Tracker) : Tracker := resumeEffect o (resetEffect o t)

theorem positioned_of_restores (restores : t.restores o = true) :
    (positioned o t).activeChapterIdRef = some o.chapterId ∧
    (positioned o t).currentPage = o.targetResumePage ∧
    (positioned o t).history = .set o.chapterId o.targetResumePage :: t.history ∧
    (positioned o t).hasResumed = true ∧
    (positioned o t).hasMarkedRead =
      (if t.activeChapterIdRef ≠ some o.chapterId then o.isChapterRead else t.hasMarkedRead) := by
  rcases resetEffect_spec o t with ⟨active, _, history, resumed, marked⟩
  simp only [Tracker.restores, Bool.and_eq_true, bne_iff_ne, ne_eq, Bool.or_eq_true,
    Bool.not_eq_true'] at restores
  have notResumed : (resetEffect o t).hasResumed = false := by
    rw [resumed]
    rcases restores.2 with switched | notResumed
    · simp [switched]
    · simp [notResumed]
  rw [positioned, resumeEffect, if_neg (by simp [restores.1, notResumed])]
  exact ⟨active, rfl, by rw [history], rfl, marked⟩

theorem positioned_of_not_restores (restores : t.restores o = false) :
    (o.chapterId ≠ "" → o.pagesCount ≠ 0 → (resetEffect o t).hasResumed = true) ∧
    positioned o t = resetEffect o t := by
  have stays : o.chapterId ≠ "" → o.pagesCount ≠ 0 → (resetEffect o t).hasResumed = true := by
    intro chapter pages
    simp only [Tracker.restores, Bool.and_eq_false_iff, bne_eq_false_iff_eq, chapter, pages,
      Bool.or_eq_false_iff, Bool.not_eq_false', false_or] at restores
    rw [(resetEffect_spec o t).2.2.2.1, restores.1, restores.2, beq_self_eq_true, Bool.and_self]
  refine ⟨stays, ?_⟩
  rw [positioned, resumeEffect, if_pos]
  by_cases chapter : o.chapterId = ""
  · exact .inl chapter
  by_cases pages : o.pagesCount = 0
  · exact .inr (.inl pages)
  · exact .inr (.inr (stays chapter pages))

/-- When the saving effect of a render marks the chapter as read. -/
def emits (o : Options) (page : Rat) (t : Tracker) : Bool :=
  truthy o.effectiveMangaId && o.chapterId != "" && o.pagesCount != 0 && t.hasResumed &&
    page == o.lastPage && !t.hasMarkedRead && o.onUpdateProgress.isSome

theorem notify_spec (t : Tracker) (o : Options) (event : Event) :
    (notify t o event).activeChapterIdRef = t.activeChapterIdRef ∧
    (notify t o event).currentPage = t.currentPage ∧
    (notify t o event).hasResumed = t.hasResumed ∧
    (notify t o event).rendered = t.rendered ∧
    (notify t o event).history =
      if o.onUpdateProgress.isSome then event :: t.history else t.history := by
  unfold notify
  by_cases callback : o.onUpdateProgress.isSome = true
  · simp [callback]
  · simp [callback]

theorem saveEffect_spec (o : Options) (page : Rat) (t : Tracker) :
    (saveEffect o page t).activeChapterIdRef = t.activeChapterIdRef ∧
    (saveEffect o page t).currentPage = t.currentPage ∧
    (saveEffect o page t).hasResumed = t.hasResumed ∧
    (saveEffect o page t).history =
      if emits o page t then
        .autoRead o.effectiveMangaId o.chapterId o.chapterProviderId page :: t.history
      else t.history := by
  unfold saveEffect
  split
  · rename_i returns
    have silent : emits o page t = false := by
      simp only [Bool.or_eq_true, Bool.not_eq_true', beq_iff_eq] at returns
      rcases returns with ((noManga | noChapter) | noPages) | notResumed
      · simp [emits, noManga]
      · simp [emits, noChapter]
      · simp [emits, noPages]
      · simp [emits, notResumed]
    simp [silent]
  rename_i proceeds
  simp only [Bool.or_eq_true, Bool.not_eq_true', beq_iff_eq, not_or, Bool.not_eq_false] at proceeds
  rcases proceeds with ⟨⟨⟨manga, chapter⟩, pages⟩, resumed⟩
  split
  · rename_i atLastPage
    by_cases marked : t.hasMarkedRead = true
    · simp [emits, marked]
    · have emitted : emits o page t = o.onUpdateProgress.isSome := by
        simp [emits, manga, chapter, pages, resumed, atLastPage, marked]
      simp only [marked, emitted, Bool.false_eq_true, if_false]
      have notified := notify_spec { t with
        saveTimeout := none
        hasCleanup := false
        hasMarkedRead := true } o
          (.autoRead o.effectiveMangaId o.chapterId o.chapterProviderId page)
      rcases notified with ⟨active, current, resumed, _, history⟩
      split
      · exact ⟨active, current, resumed, history⟩
      · exact ⟨active, current, resumed, history⟩
  · rename_i notAtLastPage
    simp [emits, notAtLastPage]

/-- With the invariant, each of the first two effects runs whenever it would do something. -/
theorem render_eq (tracked : t.Tracked) :
    ∃ saveTimeout, t.render o =
      { (if t.changed saveDeps o t.currentPage then
          saveEffect o t.currentPage (positioned o { t with saveTimeout })
        else positioned o { t with saveTimeout }) with
        rendered := some (o, t.currentPage) } := by
  obtain ⟨saveTimeout, cleaned⟩ : ∃ saveTimeout,
      (if t.changed saveDeps o t.currentPage && t.hasCleanup then
        { t with saveTimeout := none } else t) = { t with saveTimeout } := by
    split
    · exact ⟨none, rfl⟩
    · exact ⟨t.saveTimeout, rfl⟩
  have tracked' : Tracked { t with saveTimeout } :=
    ⟨tracked.resumed, tracked.rendered, tracked.unrendered⟩
  have reset : (if t.changed (fun o _ => resetDeps o) o t.currentPage then
      resetEffect o { t with saveTimeout } else { t with saveTimeout }) =
      resetEffect o { t with saveTimeout } := by
    split
    · rfl
    · rename_i unchanged
      exact (resetEffect_of_unchanged tracked' t.currentPage (Bool.eq_false_iff.mpr unchanged)).symm
  have resume : (if t.changed (fun o _ => resumeDeps o) o t.currentPage then
      resumeEffect o (resetEffect o { t with saveTimeout }) else
      resetEffect o { t with saveTimeout }) = positioned o { t with saveTimeout } := by
    split
    · rfl
    · rename_i unchanged
      have stays : t.restores o = false :=
        Bool.eq_false_iff.mpr fun restores => unchanged (resumes_of_restores tracked restores).1
      exact (positioned_of_not_restores (t := { t with saveTimeout }) stays).2.symm
  refine ⟨saveTimeout, ?_⟩
  simp only [render, cleaned, reset, resume]

/-- The saving effect still sees the page from before. -/
theorem render_of_restores (tracked : t.Tracked) (restores : t.restores o = true) :
    (t.render o).activeChapterIdRef = some o.chapterId ∧
    (t.render o).currentPage = o.targetResumePage ∧ (t.render o).hasResumed = true ∧
    (t.render o).rendered = some (o, t.currentPage) ∧
    (t.render o).history =
      if t.leftOnLastPage o then
        .autoRead o.effectiveMangaId o.chapterId o.chapterProviderId t.currentPage ::
          .set o.chapterId o.targetResumePage :: t.history
      else .set o.chapterId o.targetResumePage :: t.history := by
  rcases render_eq (o := o) tracked with ⟨saveTimeout, rendered⟩
  rw [if_pos (resumes_of_restores tracked restores).2] at rendered
  rcases positioned_of_restores (t := { t with saveTimeout }) restores with
    ⟨active, page, history, resumed, marked⟩
  rcases saveEffect_spec o t.currentPage (positioned o { t with saveTimeout }) with
    ⟨sameActive, samePage, sameResumed, saved⟩
  have shown : o.chapterId != "" ∧ o.pagesCount != 0 := by
    simp only [Tracker.restores, Bool.and_eq_true] at restores
    exact restores.1
  have emitted : emits o t.currentPage (positioned o { t with saveTimeout }) =
      t.leftOnLastPage o := by
    simp only [emits, leftOnLastPage, resumed, marked, shown.1, shown.2, Bool.and_true]
    cases truthy o.effectiveMangaId <;> cases o.onUpdateProgress.isSome <;> simp
  rw [emitted, history] at saved
  rw [rendered]
  exact ⟨sameActive.trans active, samePage.trans page, sameResumed.trans resumed, rfl, saved⟩

theorem render_of_not_restores (tracked : t.Tracked) (stays : t.restores o = false) :
    (t.render o).activeChapterIdRef = some o.chapterId ∧
    (t.render o).currentPage = t.currentPage ∧
    (t.render o).hasResumed = (t.activeChapterIdRef == some o.chapterId && t.hasResumed) ∧
    (o.chapterId ≠ "" → o.pagesCount ≠ 0 → (t.render o).hasResumed = true) ∧
    (t.render o).rendered = some (o, t.currentPage) ∧
    ((t.render o).history = t.history ∨ t.activeChapterIdRef = some o.chapterId ∧
      t.hasResumed = true ∧ (t.render o).history =
        .autoRead o.effectiveMangaId o.chapterId o.chapterProviderId t.currentPage ::
          t.history) := by
  rcases render_eq (o := o) tracked with ⟨saveTimeout, rendered⟩
  rcases positioned_of_not_restores (t := { t with saveTimeout }) stays with ⟨resumes, same⟩
  rcases resetEffect_spec o { t with saveTimeout } with ⟨active, page, history, resumed, _⟩
  rw [same] at rendered
  by_cases saves : t.changed saveDeps o t.currentPage = true
  · rw [if_pos saves] at rendered
    rcases saveEffect_spec o t.currentPage (resetEffect o { t with saveTimeout }) with
      ⟨sameActive, samePage, sameResumed, saved⟩
    rw [rendered]
    refine ⟨sameActive.trans active, samePage.trans page, sameResumed.trans resumed,
      fun chapter pages => sameResumed.trans (resumes chapter pages), rfl, ?_⟩
    by_cases emitted : emits o t.currentPage (resetEffect o { t with saveTimeout }) = true
    · rw [if_pos emitted, history] at saved
      have isResumed : (resetEffect o { t with saveTimeout }).hasResumed = true := by
        simp only [emits, Bool.and_eq_true] at emitted
        exact emitted.1.1.1.2
      rw [resumed, Bool.and_eq_true, beq_iff_eq] at isResumed
      exact .inr ⟨isResumed.1, isResumed.2, saved⟩
    · rw [if_neg emitted, history] at saved
      exact .inl saved
  · rw [if_neg saves] at rendered
    rw [rendered]
    exact ⟨active, page, resumed, resumes, rfl, .inl history⟩

/-! ## Runs -/

theorem initial_tracked : Tracked initial where
  resumed resumed := nomatch resumed
  rendered _ _ rendered := nomatch rendered
  unrendered _ := rfl

/-- An action other than a render keeps the invariant and the rule. -/
theorem Tracked.extend (tracked : t.Tracked) {next : Tracker}
    (active : next.activeChapterIdRef = t.activeChapterIdRef)
    (resumed : next.hasResumed = t.hasResumed) (rendered : next.rendered = t.rendered)
    (set : t.hasResumed = true → ∀ chapterId, t.activeChapterIdRef = some chapterId →
      .set chapterId next.currentPage ∈ next.history) : next.Tracked where
  resumed isResumed chapterId isActive :=
    set (resumed ▸ isResumed) chapterId (active ▸ isActive)
  rendered o page isRendered := by
    rw [active, resumed]
    exact tracked.rendered o page (rendered ▸ isRendered)
  unrendered isUnrendered := by
    rw [active]
    exact tracked.unrendered (rendered ▸ isUnrendered)

theorem render_tracked (tracked : t.Tracked) : (t.render o).Tracked := by
  cases restores : t.restores o with
  | true =>
      rcases render_of_restores tracked restores with ⟨active, page, resumed, rendered, history⟩
      refine ⟨fun _ chapterId isActive => ?_, fun o' page' isRendered => ?_, fun unrendered => ?_⟩
      · rw [active, Option.some.injEq] at isActive
        rw [page, history, ← isActive]
        split
        · exact List.mem_cons_of_mem _ List.mem_cons_self
        · exact List.mem_cons_self
      · rw [rendered] at isRendered
        cases isRendered
        exact ⟨active, fun _ _ => resumed⟩
      · rw [rendered] at unrendered
        contradiction
  | false =>
      rcases render_of_not_restores tracked restores with
        ⟨active, page, resumed, resumes, rendered, history⟩
      refine ⟨fun isResumed chapterId isActive => ?_, fun o' page' isRendered => ?_,
        fun unrendered => ?_⟩
      · rw [resumed, Bool.and_eq_true, beq_iff_eq] at isResumed
        rw [active] at isActive
        have wasSet := tracked.resumed isResumed.2 chapterId (isResumed.1.trans isActive)
        rw [page]
        rcases history with same | ⟨_, _, emitted⟩
        · rw [same]
          exact wasSet
        · rw [emitted]
          exact List.mem_cons_of_mem _ wasSet
      · rw [rendered] at isRendered
        cases isRendered
        exact ⟨active, resumes⟩
      · rw [rendered] at unrendered
        contradiction

/-- What a render does to the rule. -/
theorem render_readAfterLastPage (tracked : t.Tracked) (rule : ReadAfterLastPage t.history) :
    ReadAfterLastPage (t.render o).history ↔ t.keepsUnread (.render o) = true := by
  cases restores : t.restores o with
  | true =>
      have history := (render_of_restores tracked restores).2.2.2.2
      have positioned : ReadAfterLastPage (.set o.chapterId o.targetResumePage :: t.history) :=
        rule.other fun _ _ _ _ isRead => nomatch isRead
      cases left : t.leftOnLastPage o with
      | true =>
          have atLastPage : t.currentPage = o.lastPage := by
            simp only [leftOnLastPage, Bool.and_eq_true, beq_iff_eq] at left
            exact left.1.2
          rw [history, left, if_pos rfl, readAfterLastPage_cons, atLastPage]
          simp only [keepsUnread, restores, left, Bool.and_self, Bool.not_true, Bool.false_or,
            Bool.or_eq_true, beq_iff_eq, List.contains_iff_mem]
          constructor
          · rintro ⟨_, wasSet⟩
            rcases List.mem_cons.mp (wasSet _ _ _ _ rfl) with restored | before
            · rw [Event.set.injEq] at restored
              exact .inl restored.2.symm
            · exact .inr before
          · intro wasSet
            refine ⟨positioned, fun mangaId chapterId providerId lastPage isRead => ?_⟩
            cases isRead
            rcases wasSet with restored | before
            · rw [restored]
              exact List.mem_cons_self
            · exact List.mem_cons_of_mem _ before
      | false =>
          rw [history, left]
          simp only [keepsUnread, left, Bool.and_false, Bool.not_false, Bool.true_or, iff_true]
          exact positioned
  | false =>
      simp only [keepsUnread, restores, Bool.false_and, Bool.not_false, Bool.true_or, iff_true]
      rcases (render_of_not_restores tracked restores).2.2.2.2.2 with same | ⟨active, resumed, emitted⟩
      · rw [same]
        exact rule
      · rw [emitted, readAfterLastPage_cons]
        refine ⟨rule, fun mangaId chapterId providerId lastPage isRead => ?_⟩
        cases isRead
        exact tracked.resumed resumed _ active

/-- A call of `onUpdateProgress` other than the automatic one. -/
theorem Tracked.notify (tracked : t.Tracked) (o : Options) (event : Event)
    (notRead : ∀ mangaId chapterId providerId lastPage,
      event ≠ .autoRead mangaId chapterId providerId lastPage) :
    (t.notify o event).Tracked ∧ (ReadAfterLastPage t.history →
      ReadAfterLastPage (t.notify o event).history) := by
  rcases notify_spec t o event with ⟨active, page, resumed, rendered, history⟩
  refine ⟨tracked.extend active resumed rendered fun isResumed chapterId isActive => ?_,
    fun rule => ?_⟩
  · rw [page, history]
    have wasSet := tracked.resumed isResumed chapterId isActive
    split
    · exact List.mem_cons_of_mem _ wasSet
    · exact wasSet
  · rw [history]
    split
    · exact rule.other notRead
    · exact rule

/-- One action. -/
theorem step_spec (tracked : t.Tracked) {action : Action} (taken : t.step action = some t') :
    t'.Tracked ∧ (ReadAfterLastPage t.history →
      (ReadAfterLastPage t'.history ↔ t.keepsUnread action = true)) := by
  cases action with
  | render o =>
      cases taken
      exact ⟨render_tracked tracked, render_readAfterLastPage tracked⟩
  | setCurrentPage update =>
      rcases Option.map_eq_some_iff.mp taken with ⟨⟨o, page⟩, rendered, same⟩
      cases same
      refine ⟨tracked.extend rfl rfl rfl fun _ chapterId isActive => ?_, fun rule => ?_⟩
      · rw [(tracked.rendered o page rendered).1, Option.some.injEq] at isActive
        rw [← isActive]
        exact List.mem_cons_self
      · exact iff_of_true (rule.other fun _ _ _ _ isRead => nomatch isRead) rfl
  | setShowCompletionDialog shown =>
      cases taken
      exact ⟨tracked.extend rfl rfl rfl tracked.resumed, fun rule => iff_of_true rule rfl⟩
  | markChapterRead lastReadPage =>
      rcases Option.map_eq_some_iff.mp taken with ⟨⟨o, page⟩, rendered, same⟩
      have marked : Tracked { t with hasMarkedRead := true } :=
        tracked.extend rfl rfl rfl tracked.resumed
      have notified := marked.notify o
        (.markedRead o.effectiveMangaId o.chapterId o.chapterProviderId lastReadPage)
        fun _ _ _ _ isRead => nomatch isRead
      dsimp only at same
      split at same
      · cases same
        exact ⟨notified.1, fun rule => iff_of_true (notified.2 rule) rfl⟩
      · cases same
        exact ⟨tracked, fun rule => iff_of_true rule rfl⟩
  | fireTimeout =>
      rcases Option.map_eq_some_iff.mp taken with ⟨⟨o, page⟩, pending, same⟩
      cases same
      have cleared : Tracked { t with saveTimeout := none } :=
        tracked.extend rfl rfl rfl tracked.resumed
      have notified := cleared.notify o
        (.saved o.effectiveMangaId o.chapterId o.chapterProviderId page)
        fun _ _ _ _ isRead => nomatch isRead
      exact ⟨notified.1, fun rule => iff_of_true (notified.2 rule) rfl⟩

/-- An automatic update with `is_read: true` is issued for a chapter only if its last page
had been set as the current page while it was shown, in every run whose renders find no
page left over by another chapter that equals the number of pages of theirs. The next
action breaks the rule exactly when its render does find one. -/
theorem tracker_marks_only_read {actions : List Action} {last : Tracker}
    (run : Run step (fun t action => t.keepsUnread action = true) initial actions last) :
    ReadAfterLastPage last.history ∧
    ∀ action next, last.step action = some next →
      (ReadAfterLastPage next.history ↔ last.keepsUnread action = true) := by
  have kept := run.invariant (fun t => t.Tracked ∧ ReadAfterLastPage t.history)
    (fun t action next allowed invariant taken => by
      rcases step_spec invariant.1 taken with ⟨tracked, rule⟩
      exact ⟨tracked, (rule invariant.2).mpr allowed⟩)
    ⟨initial_tracked, fun later earlier _ _ _ _ split => by simp [initial] at split⟩
  exact ⟨kept.2, fun action next taken => (step_spec kept.1 taken).2 kept.2⟩

/-- An unread chapter of a manga, as the page of the reader shows it. -/
def unread (chapterId : String) (pagesCount : Nat) : Options where
  effectiveMangaId := some "m"
  chapterId
  chapterProviderId := some "p"
  pagesCount
  isPaged := true
  isChapterRead := false
  chapterLastReadPage := 0
  searchPage := .absent
  hasNextChapter := true
  userStatus := some "reading"
  onScrollToPage := some 0
  onUpdateProgress := some 0

/-- Two chapters of different lengths, each read to its end. -/
theorem tracker_marks_only_read_two_chapters :
    ∃ actions last, Run step (fun t action => t.keepsUnread action = true) initial actions last ∧
      last.history = [.autoRead (some "m") "b" (some "p") 20, .set "b" 20, .set "b" 1,
        .autoRead (some "m") "a" (some "p") 10, .set "a" 10, .set "a" 1] ∧
      ReadAfterLastPage last.history ∧
      ∀ action next, last.step action = some next →
        (ReadAfterLastPage next.history ↔ last.keepsUnread action = true) := by
  have executed : (Run.execute step keepsUnread initial
      [.render (unread "a" 10), .setCurrentPage fun _ => 10, .render (unread "a" 10),
        .render (unread "b" 0), .render (unread "b" 20), .setCurrentPage fun _ => 20,
        .render (unread "b" 20)]).map (·.history) =
      some [.autoRead (some "m") "b" (some "p") 20, .set "b" 20, .set "b" 1,
        .autoRead (some "m") "a" (some "p") 10, .set "a" 10, .set "a" 1] := by
    decide +kernel
  rcases Option.map_eq_some_iff.mp executed with ⟨last, executed, history⟩
  exact ⟨_, last, Run.ofExecute executed, history,
    tracker_marks_only_read (Run.ofExecute executed)⟩

/-- The next chapter has as many pages as the one that was read to its end. Its pages
arrive, and it is marked although its first page is the only one set. -/
theorem tracker_marks_unread :
    ¬ ∀ actions last, Run step (fun _ _ => True) initial actions last →
      ReadAfterLastPage last.history := by
  intro always
  have executed : (Run.execute step (fun _ _ => true) initial
      [.render (unread "a" 10), .setCurrentPage fun _ => 10, .render (unread "a" 10),
        .render (unread "b" 0), .render (unread "b" 10)]).map (·.history) =
      some [.autoRead (some "m") "b" (some "p") 10, .set "b" 1,
        .autoRead (some "m") "a" (some "p") 10, .set "a" 10, .set "a" 1] := by
    decide +kernel
  rcases Option.map_eq_some_iff.mp executed with ⟨last, executed, history⟩
  have rule := always _ last ((Run.ofExecute executed).weaken fun _ _ _ => trivial)
  rw [history, readAfterLastPage_cons] at rule
  have wasSet := rule.2 _ _ _ _ rfl
  exact absurd wasSet (by decide +kernel)

end Tracker

end Kiyomi.Web
