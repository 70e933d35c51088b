import Mathlib.Data.List.Sort

namespace Kiyomi.Web

/-! # The reading call to action

`getReadingCtaInfo`; every `return` of it is one selection. -/

/-! ## Searches -/

section Searches

variable {α : Type u} {p : α → Bool} {l : List α} {a : α}

/-- The first element of the list with the property. -/
def IsFirst (p : α → Bool) (l : List α) (a : α) : Prop :=
  ∃ before after, l = before ++ a :: after ∧ p a = true ∧ ∀ b ∈ before, p b = false

/-- The last element of the list with the property. -/
def IsLast (p : α → Bool) (l : List α) (a : α) : Prop :=
  ∃ before after, l = before ++ a :: after ∧ p a = true ∧ ∀ b ∈ after, p b = false

theorem isFirst_of_find? (found : l.find? p = some a) : IsFirst p l a := by
  rcases List.find?_eq_some_iff_append.mp found with ⟨holds, before, after, split, none_before⟩
  exact ⟨before, after, split, holds, fun b member => by simpa using none_before b member⟩

theorem exists_find? (some_holds : ∃ b ∈ l, p b = true) : ∃ b, l.find? p = some b :=
  Option.isSome_iff_exists.mp (List.find?_isSome.mpr some_holds)

theorem isLast_of_getLast? (found : (l.filter p).getLast? = some a) : IsLast p l a := by
  induction l with
  | nil => contradiction
  | cons b l induction =>
      by_cases later : l.filter p = []
      · have none_later : ∀ c ∈ l, p c = false := by
          simpa [List.filter_eq_nil_iff] using later
        by_cases holds : p b = true
        · rw [List.filter_cons_of_pos holds, later, List.getLast?_singleton,
            Option.some.injEq] at found
          subst found
          exact ⟨[], l, rfl, holds, none_later⟩
        · rw [List.filter_cons_of_neg holds, later] at found
          contradiction
      · have inLater : (l.filter p).getLast? = some a := by
          rw [← found, List.filter_cons]
          split
          · exact (List.getLast?_cons_of_ne_nil later).symm
          · rfl
        rcases induction inLater with ⟨before, after, split, holds, none_after⟩
        exact ⟨b :: before, after, by rw [split, List.cons_append], holds, none_after⟩

theorem IsFirst.mem (first : IsFirst p l a) : a ∈ l ∧ p a = true := by
  rcases first with ⟨before, after, rfl, holds, _⟩
  exact ⟨by simp, holds⟩

theorem IsLast.mem (last : IsLast p l a) : a ∈ l ∧ p a = true := by
  rcases last with ⟨before, after, rfl, holds, _⟩
  exact ⟨by simp, holds⟩

end Searches

/-! ## Chapters -/

structure ChapterMeta where
  isRead : Option Bool := none
  lastReadPage : Option Rat := none
  deriving DecidableEq

/-- A chapter as the API returns it; fields in snake case end in an underscore. -/
structure Chapter where
  id : String
  number : Option Rat := none
  isRead_ : Option Bool := none
  isRead : Option Bool := none
  lastReadPage_ : Option Rat := none
  lastReadPage : Option Rat := none
  chapterMeta : Option ChapterMeta := none
  deriving DecidableEq

structure MangaReference where
  /-- `user_state?.last_read_chapter_id`. -/
  userState : Option String := none
  lastReadChapterId : Option String := none
  lastReadChapterId_ : Option String := none

/-- The second argument: a string, a manga, or neither. -/
inductive LastRead
  | absent
  | ofId (chapterId : String)
  | ofManga (reference : MangaReference)

inductive CtaType
  | start
  | resume
  | next
  | reread
  deriving DecidableEq

structure ReadingCtaInfo where
  label : String
  chapterId : String
  page : Rat
  isResume : Bool
  isCompleted : Bool
  type : CtaType
  deriving DecidableEq

def getIsRead (c : Chapter) : Bool :=
  c.isRead_ = some true || c.isRead = some true ||
    c.chapterMeta.any fun chapterMeta => chapterMeta.isRead = some true

def getLastPage (c : Chapter) : Rat :=
  (((c.lastReadPage_.or c.lastReadPage).or (c.chapterMeta.bind ChapterMeta.lastReadPage)).getD 0)

def inProgress (c : Chapter) : Bool := !getIsRead c && 1 < getLastPage c

def unread (c : Chapter) : Bool := !getIsRead c

/-- The chapters by number; chapters of one number stay as they stand. -/
def readingOrder (chapters : List Chapter) : List Chapter :=
  chapters.insertionSort fun a b => a.number.getD 0 ≤ b.number.getD 0

def LastRead.chapterId : LastRead → Option String
  | .absent => none
  | .ofId chapterId => some chapterId
  | .ofManga reference =>
      (reference.userState.or reference.lastReadChapterId).or reference.lastReadChapterId_

/-- An empty identifier names no chapter. -/
def lastReadChapter (chapters : List Chapter) (lastRead : LastRead) : Option Chapter :=
  (lastRead.chapterId.filter (· ≠ "")).bind fun id => chapters.find? (·.id = id)

/-! ## The selection -/

/-- The `return` that is reached, with its chapter. -/
inductive Selection
  | resume (chapter : Chapter)
  | start (chapter : Chapter)
  | reread (chapter : Chapter)
  | next (chapter : Chapter)
  | fallback (chapter : Chapter)
  deriving DecidableEq

/-- The first unread chapter behind the one with the identifier. -/
def nextUnread (sorted : List Chapter) (id : String) : Option Chapter :=
  (sorted.findIdx? (·.id = id)).bind fun idx => (sorted.drop (idx + 1)).find? unread

def inProgressChapter (sorted : List Chapter) (last : Option Chapter) : Option Chapter :=
  (last.filter inProgress).or (sorted.filter inProgress).getLast?

def nextChapter (sorted : List Chapter) (last : Option Chapter) : Option Chapter :=
  (((last.filter getIsRead).bind fun last => nextUnread sorted last.id).or
    ((sorted.filter getIsRead).getLast?.bind fun last => nextUnread sorted last.id)).or
      (sorted.find? unread)

def select (firstChapter : Chapter) (sorted : List Chapter) (last : Option Chapter) : Selection :=
  match inProgressChapter sorted last with
  | some chapter => .resume chapter
  | none =>
      let readChapters := sorted.filter getIsRead
      if readChapters.length = 0 then .start firstChapter
      else if readChapters.length = sorted.length then .reread firstChapter
      else
        match nextChapter sorted last with
        | some chapter => .next chapter
        | none => .fallback firstChapter

section Info

-- The text of a number in a template literal.
variable (numberText : Rat → String)

def numberLabel (c : Chapter) : String := numberText (c.number.getD 1)

def Selection.info : Selection → ReadingCtaInfo
  | .resume c =>
      let lastPage := if getLastPage c = 0 then 1 else getLastPage c
      { type := .resume
        label := "Resume Ch. " ++ numberLabel numberText c ++ " (p. " ++ numberText lastPage ++ ")"
        chapterId := c.id
        page := lastPage
        isResume := true
        isCompleted := false }
  | .start c | .fallback c =>
      { type := .start
        label := "Start Reading"
        chapterId := c.id
        page := 1
        isResume := false
        isCompleted := false }
  | .reread c =>
      { type := .reread
        label := "Re-read Ch. " ++ numberLabel numberText c
        chapterId := c.id
        page := 1
        isResume := false
        isCompleted := true }
  | .next c =>
      { type := .next
        label := "Read Ch. " ++ numberLabel numberText c
        chapterId := c.id
        page := 1
        isResume := false
        isCompleted := false }

/-- No selection for no chapters. -/
def selection (chapters : Option (List Chapter)) (lastRead : LastRead) : Option Selection :=
  let chapters := chapters.getD []
  let sorted := readingOrder chapters
  sorted.head?.map fun firstChapter => select firstChapter sorted (lastReadChapter chapters lastRead)

def getReadingCtaInfo (chapters : Option (List Chapter)) (lastRead : LastRead) :
    Option ReadingCtaInfo :=
  (selection chapters lastRead).map (·.info numberText)

end Info

/-! ## What is selected -/

variable {chapters : List Chapter} {lastRead : LastRead} {last c : Chapter}

theorem perm_readingOrder (chapters : List Chapter) : (readingOrder chapters).Perm chapters :=
  List.perm_insertionSort _ chapters

theorem mem_readingOrder : c ∈ readingOrder chapters ↔ c ∈ chapters :=
  (perm_readingOrder chapters).mem_iff

theorem nodup_readingOrder (distinct : (chapters.map Chapter.id).Nodup) :
    ((readingOrder chapters).map Chapter.id).Nodup :=
  ((perm_readingOrder chapters).map Chapter.id).nodup_iff.mpr distinct

theorem eq_of_id (distinct : (chapters.map Chapter.id).Nodup) (inList : c ∈ chapters)
    (inListToo : last ∈ chapters) (same : c.id = last.id) : c = last :=
  List.inj_on_of_nodup_map distinct inList inListToo same

theorem lastReadChapter_eq (distinct : (chapters.map Chapter.id).Nodup) (member : last ∈ chapters)
    (isLast : lastRead.chapterId.filter (· ≠ "") = some last.id) :
    lastReadChapter chapters lastRead = some last := by
  rw [lastReadChapter, isLast, Option.bind_some]
  rcases exists_find? (p := fun c : Chapter => decide (c.id = last.id)) ⟨last, member, by simp⟩ with
    ⟨found, isFound⟩
  have same : found.id = last.id := by simpa using List.find?_some isFound
  rw [isFound, eq_of_id distinct (List.mem_of_find?_eq_some isFound) member same]

theorem mem_of_lastReadChapter (isLast : lastReadChapter chapters lastRead = some last) :
    last ∈ chapters ∧ lastRead.chapterId.filter (· ≠ "") = some last.id := by
  rcases Option.bind_eq_some_iff.mp isLast with ⟨id, isId, found⟩
  have same : last.id = id := by simpa using List.find?_some found
  rw [same]
  exact ⟨List.mem_of_find?_eq_some found, isId⟩

/-- Behind its place in a list of different chapters. -/
theorem nextUnread_eq {sorted before after : List Chapter} (distinct : (sorted.map Chapter.id).Nodup)
    (split : sorted = before ++ last :: after) :
    nextUnread sorted last.id = after.find? unread := by
  have others : ∀ c ∈ before, (decide (c.id = last.id)) = false := by
    intro c member
    rw [split, List.map_append, List.map_cons, List.nodup_append] at distinct
    exact decide_eq_false (distinct.2.2 c.id (List.mem_map_of_mem member) last.id
      List.mem_cons_self)
  have place : sorted.findIdx? (fun c => decide (c.id = last.id)) = some before.length := by
    rw [split, List.findIdx?_append, List.findIdx?_eq_none_iff.mpr others, List.findIdx?_cons]
    simp
  rw [nextUnread, place, Option.bind_some, split, ← List.drop_drop, List.drop_left]
  rfl

theorem isFirst_of_nextUnread {sorted : List Chapter} {id : String}
    (found : nextUnread sorted id = some c) : c ∈ sorted ∧ unread c = true := by
  rcases Option.bind_eq_some_iff.mp found with ⟨idx, _, isFound⟩
  rcases (isFirst_of_find? isFound).mem with ⟨member, isUnread⟩
  exact ⟨List.mem_of_mem_drop member, isUnread⟩

theorem mem_of_nextChapter {sorted : List Chapter} {lastOption : Option Chapter}
    (found : nextChapter sorted lastOption = some c) : c ∈ sorted ∧ unread c = true := by
  rw [nextChapter, Option.or_eq_some_iff, Option.or_eq_some_iff] at found
  rcases found with (isNext | ⟨_, isNext⟩) | ⟨_, isFound⟩
  · rcases Option.bind_eq_some_iff.mp isNext with ⟨last, _, isNext⟩
    exact isFirst_of_nextUnread isNext
  · rcases Option.bind_eq_some_iff.mp isNext with ⟨last, _, isNext⟩
    exact isFirst_of_nextUnread isNext
  · exact (isFirst_of_find? isFound).mem

/-- What the call to action has to show: a chapter, of the list and for the last-read one. -/
structure Chosen (chapters : List Chapter) (lastRead : LastRead) (info : ReadingCtaInfo)
    (c : Chapter) : Prop where
  member : c ∈ chapters
  shown : info.chapterId = c.id
  unread : (∃ d ∈ chapters, getIsRead d = false) → getIsRead c = false
  reread : (∀ d ∈ chapters, getIsRead d = true) →
    info.type = .reread ∧ (readingOrder chapters).head? = some c
  resumed : (∃ d ∈ chapters, inProgress d = true) →
    info.type = .resume ∧ inProgress c = true ∧ info.page = getLastPage c
  resumesLastRead : ∀ last ∈ chapters, lastRead.chapterId.filter (· ≠ "") = some last.id →
    inProgress last = true → c = last
  resumesLatest : (∃ d ∈ chapters, inProgress d = true) →
    (∀ last ∈ chapters, lastRead.chapterId.filter (· ≠ "") = some last.id →
      inProgress last = false) → IsLast inProgress (readingOrder chapters) c
  goesOn : (∀ d ∈ chapters, inProgress d = false) →
    ∀ last ∈ chapters, lastRead.chapterId.filter (· ≠ "") = some last.id → getIsRead last = true →
      ∀ before after, readingOrder chapters = before ++ last :: after →
        (∃ d ∈ after, getIsRead d = false) → IsFirst Web.unread after c

theorem chosen_resume {c : Chapter} (distinct : (chapters.map Chapter.id).Nodup)
    (found : inProgressChapter (readingOrder chapters) (lastReadChapter chapters lastRead) = some c)
    (numberText : Rat → String) :
    Chosen chapters lastRead ((Selection.resume c).info numberText) c := by
  have cases : (lastReadChapter chapters lastRead = some c ∧ inProgress c = true) ∨
      (∀ last, lastReadChapter chapters lastRead = some last → inProgress last = false) ∧
        IsLast inProgress (readingOrder chapters) c := by
    rw [inProgressChapter, Option.or_eq_some_iff] at found
    rcases found with isLast | ⟨noLast, isFound⟩
    · exact .inl (by simpa [Option.filter_eq_some_iff] using isLast)
    · refine .inr ⟨fun last isLast => ?_, isLast_of_getLast? isFound⟩
      rw [isLast] at noLast
      simpa [Option.filter_eq_none_iff] using noLast
  have isProgress : c ∈ chapters ∧ inProgress c = true := by
    rcases cases with ⟨isLast, holds⟩ | ⟨_, isLast⟩
    · exact ⟨(mem_of_lastReadChapter isLast).1, holds⟩
    · exact ⟨mem_readingOrder.mp isLast.mem.1, isLast.mem.2⟩
  have parts : getIsRead c = false ∧ 1 < getLastPage c := by
    simpa [inProgress] using isProgress.2
  have nonzero : getLastPage c ≠ 0 := fun zero => by
    rw [zero] at parts
    exact absurd parts.2 (by decide)
  refine ⟨isProgress.1, rfl, fun _ => parts.1, fun allRead => ?_, fun _ => ?_, ?_, ?_, ?_⟩
  · rw [allRead c isProgress.1] at parts
    exact absurd parts.1 (by decide)
  · exact ⟨rfl, isProgress.2, if_neg nonzero⟩
  · intro last member isLast holds
    have isFound := lastReadChapter_eq distinct member isLast
    rcases cases with ⟨isLastToo, _⟩ | ⟨notLast, _⟩
    · exact Option.some.inj (isLastToo.symm.trans isFound)
    · rw [notLast last isFound] at holds
      contradiction
  · intro _ notLast
    rcases cases with ⟨isLast, holds⟩ | ⟨_, isLast⟩
    · rcases mem_of_lastReadChapter isLast with ⟨member, isId⟩
      rw [notLast c member isId] at holds
      contradiction
    · exact isLast
  · intro noProgress
    rw [noProgress c isProgress.1] at isProgress
    exact absurd isProgress.2 (by decide)

theorem noProgress_of_inProgressChapter
    (noChapter : inProgressChapter (readingOrder chapters) (lastReadChapter chapters lastRead) =
      none) : ∀ d ∈ chapters, inProgress d = false := by
  rw [inProgressChapter, Option.or_eq_none_iff, List.getLast?_eq_none_iff,
    List.filter_eq_nil_iff] at noChapter
  intro d member
  simpa using noChapter.2 d (mem_readingOrder.mpr member)

/-- Where no chapter is in progress, nothing is to be resumed. -/
theorem chosen_of_noProgress {info : ReadingCtaInfo} (noProgress : ∀ d ∈ chapters, inProgress d = false)
    (member : c ∈ chapters) (shown : info.chapterId = c.id)
    (unread : (∃ d ∈ chapters, getIsRead d = false) → getIsRead c = false)
    (reread : (∀ d ∈ chapters, getIsRead d = true) →
      info.type = .reread ∧ (readingOrder chapters).head? = some c)
    (goesOn : ∀ last ∈ chapters, lastRead.chapterId.filter (· ≠ "") = some last.id →
      getIsRead last = true → ∀ before after, readingOrder chapters = before ++ last :: after →
        (∃ d ∈ after, getIsRead d = false) → IsFirst Web.unread after c) :
    Chosen chapters lastRead info c := by
  have none_there : ¬∃ d ∈ chapters, inProgress d = true := by
    rintro ⟨d, inList, holds⟩
    rw [noProgress d inList] at holds
    contradiction
  refine ⟨member, shown, unread, reread, fun some_there => absurd some_there none_there, ?_,
    fun some_there => absurd some_there none_there, fun _ => goesOn⟩
  exact fun last inList _ holds => absurd ⟨last, inList, holds⟩ none_there

theorem length_filter_eq_iff {sorted : List Chapter} :
    (sorted.filter getIsRead).length = sorted.length ↔ ∀ d ∈ sorted, getIsRead d = true := by
  rw [List.length_filter_eq_length_iff]

theorem chosen_next (distinct : (chapters.map Chapter.id).Nodup)
    (noProgress : ∀ d ∈ chapters, inProgress d = false)
    (found : nextChapter (readingOrder chapters) (lastReadChapter chapters lastRead) = some c)
    (numberText : Rat → String) :
    Chosen chapters lastRead ((Selection.next c).info numberText) c := by
  rcases mem_of_nextChapter found with ⟨inOrder, isUnread⟩
  have member := mem_readingOrder.mp inOrder
  have notRead : getIsRead c = false := by simpa [unread] using isUnread
  refine chosen_of_noProgress noProgress member rfl (fun _ => notRead) (fun allRead => ?_) ?_
  · rw [allRead c member] at notRead
    contradiction
  · intro last inList isLast isRead before after split some_later
    have isFound := lastReadChapter_eq distinct inList isLast
    have later : ∃ d ∈ after, unread d = true := by simpa [unread] using some_later
    rcases exists_find? later with ⟨first, isFirst⟩
    have isNext := nextUnread_eq (nodup_readingOrder distinct) split
    have same : nextChapter (readingOrder chapters) (some last) = some first := by
      rw [nextChapter, Option.filter_some, if_pos isRead, Option.bind_some, isNext, isFirst]
      rfl
    rw [isFound, same] at found
    cases found
    exact isFirst_of_find? isFirst

/-- The last of the searches finds a chapter wherever some chapter is unread. -/
theorem exists_nextChapter {sorted : List Chapter} {lastOption : Option Chapter}
    (some_left : ¬∀ d ∈ sorted, getIsRead d = true) : ∃ d, nextChapter sorted lastOption = some d := by
  have left : ∃ d ∈ sorted, unread d = true := by
    simpa [unread] using some_left
  rcases exists_find? left with ⟨first, isFirst⟩
  refine Option.isSome_iff_exists.mp ?_
  rw [nextChapter, isFirst, Option.isSome_or]
  exact Bool.or_true _

/-- Each selection shows a chapter as it should, and the last one is not reached. -/
theorem chosen_select {first : Chapter} {others : List Chapter}
    (distinct : (chapters.map Chapter.id).Nodup) (order : readingOrder chapters = first :: others)
    (numberText : Rat → String) :
    (∃ c, Chosen chapters lastRead ((select first (readingOrder chapters)
      (lastReadChapter chapters lastRead)).info numberText) c) ∧
    ∀ c, select first (readingOrder chapters) (lastReadChapter chapters lastRead) ≠ .fallback c := by
  have isFirst : first ∈ chapters := mem_readingOrder.mp (order ▸ List.mem_cons_self)
  rw [select]
  split
  · rename_i found
    exact ⟨⟨_, chosen_resume distinct found numberText⟩, fun c => Selection.noConfusion⟩
  · rename_i noChapter
    have noProgress := noProgress_of_inProgressChapter noChapter
    dsimp only
    split
    · rename_i noneRead
      have noneRead : ∀ d ∈ chapters, getIsRead d = false := by
        intro d member
        rw [List.length_eq_zero_iff, List.filter_eq_nil_iff] at noneRead
        simpa using noneRead d (mem_readingOrder.mpr member)
      refine ⟨⟨first, chosen_of_noProgress noProgress isFirst rfl (fun _ => noneRead _ isFirst)
        (fun allRead => ?_) ?_⟩, fun c => Selection.noConfusion⟩
      · have both := allRead first isFirst
        rw [noneRead first isFirst] at both
        contradiction
      · intro last member _ isRead
        rw [noneRead last member] at isRead
        contradiction
    · split
      · rename_i allRead
        have allRead : ∀ d ∈ chapters, getIsRead d = true := fun d member =>
          length_filter_eq_iff.mp allRead d (mem_readingOrder.mpr member)
        refine ⟨⟨first, chosen_of_noProgress noProgress isFirst rfl ?_
          (fun _ => ⟨rfl, by rw [order]; rfl⟩) ?_⟩, fun c => Selection.noConfusion⟩
        · rintro ⟨d, member, notRead⟩
          rw [allRead d member] at notRead
          contradiction
        · rintro last _ _ _ before after splitAt ⟨d, member, notRead⟩
          have inOrder : d ∈ readingOrder chapters := by
            rw [splitAt]
            simp [member]
          rw [allRead d (mem_readingOrder.mp inOrder)] at notRead
          contradiction
      · rename_i someLeft
        rcases exists_nextChapter (mt length_filter_eq_iff.mpr someLeft) with ⟨next, found⟩
        rw [found]
        exact ⟨⟨next, chosen_next distinct noProgress found numberText⟩,
          fun c => Selection.noConfusion⟩

/-- Two chapters of one number, of which the first was read last. -/
def twins : List Chapter :=
  [{ id := "b", number := some 2, isRead := some true },
    { id := "c", number := some 2, chapterMeta := some { lastReadPage := some 1 } },
    { id := "a", number := some 1 }]

/-- The text of a whole number. -/
def wholeText (number : Rat) : String := toString number.num

end Kiyomi.Web
