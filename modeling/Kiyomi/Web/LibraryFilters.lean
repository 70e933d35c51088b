import Kiyomi.Web.MetadataCompare
import Mathlib.Data.List.Infix
import Mathlib.Logic.Function.Basic

namespace Kiyomi.Web.LibraryFilters

open Api

/-! # Shelves of the library

`useLibraryFilters`: the shelves, how many manga are counted for each of them, and the manga
that are listed. -/

structure MangaMetadata where
  title : Option String := none
  tags : Option (List String) := none
  authors : Option (List String) := none

structure MangaUserState where
  status : Option String := none
  rating : Option Rat := none
  favorite : Option Bool := none
  addedAt : Option String := none
  updatedAt : Option String := none

structure MangaMeta where
  userStatus : Option String := none
  userRating : Option Rat := none
  userFavorite : Option Bool := none
  addedAt : Option String := none
  updatedAt : Option String := none

/-- A manga as the API returns it; legacy fields in snake case end in an underscore. -/
structure Manga where
  metadata : Option MangaMetadata := none
  userState : Option MangaUserState := none
  mangaMeta : Option MangaMeta := none
  title : Option String := none
  author : Option String := none
  authors : Option (List String) := none
  tags : Option (List String) := none
  genres : Option (List String) := none
  shelves : Option (List String) := none
  userStatus : Option String := none
  userStatus_ : Option String := none
  userFavorite : Option Bool := none
  userFavorite_ : Option Bool := none
  userRating : Option Rat := none
  userRating_ : Option Rat := none

namespace Manga

def status (m : Manga) : String :=
  ((((m.userState.bind (·.status)).or m.userStatus).or m.userStatus_).or
    (m.mangaMeta.bind (·.userStatus))).getD "unread"

def isFavorite (m : Manga) : Bool :=
  ((((m.userState.bind (·.favorite)).or m.userFavorite).or m.userFavorite_).or
    (m.mangaMeta.bind (·.userFavorite))).getD false

def rating (m : Manga) : Rat :=
  ((((m.userState.bind (·.rating)).or m.userRating).or m.userRating_).or
    (m.mangaMeta.bind (·.userRating))).getD 0

def shelfNames (m : Manga) : List String := m.shelves.getD []

def shownTags (m : Manga) : List String :=
  (((m.metadata.bind (·.tags)).or m.tags).or m.genres).getD []

def shownTitle (m : Manga) : String := ((m.metadata.bind (·.title)).or m.title).getD ""

def authorList (m : Manga) : List String :=
  ((m.metadata.bind (·.authors)).or m.authors).getD (m.author.filter (· ≠ "")).toList

/-- An empty date is no date. -/
def addedAt (m : Manga) : Option String :=
  ((m.userState.bind (·.addedAt)).filter (· ≠ "")).or
    ((m.mangaMeta.bind (·.addedAt)).filter (· ≠ ""))

def updatedAt (m : Manga) : Option String :=
  ((m.userState.bind (·.updatedAt)).filter (· ≠ "")).or
    ((m.mangaMeta.bind (·.updatedAt)).filter (· ≠ ""))

end Manga

/-! ## Shelves -/

structure ShelfItem where
  id : String
  label : String
  isFavorite : Option Bool := none

def defaultShelves : List ShelfItem :=
  [{ id := "all", label := "All" },
    { id := "reading", label := "Reading" },
    { id := "favorites", label := "Favorites", isFavorite := some true },
    { id := "plan_to_read", label := "Plan to Read" },
    { id := "completed", label := "Completed" },
    { id := "on_hold", label := "On Hold" },
    { id := "dropped", label := "Dropped" },
    { id := "unread", label := "Unread" }]

/-- The shelves that show the manga of one status. -/
def statusShelves : List String :=
  ["reading", "plan_to_read", "completed", "on_hold", "dropped", "unread"]

def custom (name : String) : String := "custom:" ++ name

def customShelves (libraryManga : List Manga) : List String :=
  ((libraryManga.flatMap Manga.shelfNames).eraseDups).filter (· ≠ "")

def allShelves (libraryManga : List Manga) : List ShelfItem :=
  defaultShelves ++ (customShelves libraryManga).map fun s => { id := custom s, label := s }

/-! ## Counts -/

/-- A number of the counts; `nan` is what a method of the object turns into. -/
inductive Count
  | number (n : Nat)
  | nan
  deriving DecidableEq

def Count.succ : Count → Count
  | .number n => .number (n + 1)
  | .nan => .nan

/-- The own properties of the record. -/
abbrev Counts := String → Option Count

/-- The methods that every object inherits. -/
def objectMethods : List String :=
  ["constructor", "hasOwnProperty", "isPrototypeOf", "propertyIsEnumerable", "toLocaleString",
    "toString", "valueOf", "__defineGetter__", "__defineSetter__", "__lookupGetter__",
    "__lookupSetter__"]

/-- `res[key]++`, where that is defined. -/
def increment (res : Counts) (key : String) : Counts :=
  match res key with
  | some count => Function.update res key (some count.succ)
  | none => if key ∈ objectMethods then Function.update res key (some .nan) else res

/-- `res[key] = (res[key] || 0) + 1`. -/
def addOne (res : Counts) (key : String) : Counts :=
  match res key with
  | some (.number n) => Function.update res key (some (.number (n + 1)))
  | _ => Function.update res key (some (.number 1))

def initialCounts (size : Nat) : Counts := fun key =>
  if key = "all" then some (.number size)
  else if key = "favorites" ∨ key ∈ statusShelves then some (.number 0)
  else none

def countManga (res : Counts) (m : Manga) : Counts :=
  let res := increment res m.status
  let res := if m.isFavorite then increment res "favorites" else res
  m.shelfNames.foldl (fun res s => addOne res (custom s)) res

def counts (libraryManga : List Manga) : Counts :=
  libraryManga.foldl countManga (initialCounts libraryManga.length)

/-! ## The list -/

/-- The shelf that the id of a custom shelf names. -/
def shelfName (activeShelf : String) : Option String :=
  if "custom:".toList <+: activeShelf.toList then
    some (String.ofList (activeShelf.toList.drop "custom:".length))
  else none

def onShelf (activeShelf : String) (m : Manga) : Bool :=
  if activeShelf = "favorites" ∧ ¬m.isFavorite then false
  else if activeShelf ∈ statusShelves ∧ m.status ≠ activeShelf then false
  else (shelfName activeShelf).all (· ∈ m.shelfNames)

section List

variable (mapping : CaseMapping)

def hasTag (selectedTag : String) (m : Manga) : Bool :=
  selectedTag = "" || selectedTag ∈ m.shownTags

def includes (text q : String) : Bool := decide (q.toList <:+: text.toList)

def matchesSearch (search : String) (m : Manga) : Bool :=
  let q := mapping.toLowerCase search
  trim search = "" || includes (mapping.toLowerCase m.shownTitle) q ||
    m.authorList.any fun a => includes (mapping.toLowerCase a) q

-- How a locale compares texts, and the time of a date, where its text is one.
variable (localeCompare : String → String → Int) (getTime : String → Option Rat)

/-- What is no number counts as equal. -/
def latest (a b : Option String) : Rat :=
  match (b.map getTime).getD (some 0), (a.map getTime).getD (some 0) with
  | some tB, some tA => tB - tA
  | _, _ => 0

def compare (sortBy : String) (a b : Manga) : Rat :=
  let titles : Rat := localeCompare a.shownTitle b.shownTitle
  if sortBy = "title_asc" then titles
  else if sortBy = "title_desc" then localeCompare b.shownTitle a.shownTitle
  else if sortBy = "rating_desc" then
    if b.rating ≠ a.rating then b.rating - a.rating else titles
  else if sortBy = "rating_asc" then
    if a.rating ≠ b.rating then a.rating - b.rating else titles
  else if sortBy = "added_desc" then latest getTime a.addedAt b.addedAt
  else if sortBy = "updated_desc" then latest getTime a.updatedAt b.updatedAt
  else 0

def filteredManga (activeShelf selectedTag search sortBy : String) (libraryManga : List Manga) :
    List Manga :=
  (libraryManga.filter fun m =>
    onShelf activeShelf m && hasTag selectedTag m && matchesSearch mapping search m).mergeSort
      fun a b => compare localeCompare getTime sortBy a b ≤ 0

end List

/-! ## The filter of a shelf -/

variable {res : Counts} {key name : String} {o : Option Nat} {m : Manga}
  {libraryManga : List Manga}

theorem isPrefix_custom (name : String) : "custom:".toList <+: (custom name).toList :=
  ⟨name.toList, by rw [custom, String.toList_append]⟩

theorem custom_ne (other : ¬"custom:".toList <+: key.toList) (name : String) : custom name ≠ key :=
  fun same => other (same ▸ isPrefix_custom name)

theorem custom_inj {left right : String} : custom left = custom right ↔ left = right := by
  rw [custom, custom, String.append_right_inj]

theorem shelfName_custom (name : String) : shelfName (custom name) = some name := by
  rw [shelfName, if_pos (isPrefix_custom name), custom, String.toList_append,
    List.drop_left' (by decide), String.ofList_toList]

/-- The shelves that everyone has. -/
theorem defaultShelves_ids : defaultShelves.map (·.id) ⊆ "all" :: "favorites" :: statusShelves := by
  decide

theorem not_custom (isDefault : key ∈ "all" :: "favorites" :: statusShelves) :
    ¬"custom:".toList <+: key.toList := by
  revert key
  decide

theorem not_method (isDefault : key ∈ "all" :: "favorites" :: statusShelves) :
    key ∉ objectMethods := by
  revert key
  decide

theorem custom_not_method (name : String) : custom name ∉ objectMethods := by
  have noPrefix : ∀ key ∈ objectMethods, ¬"custom:".toList <+: key.toList := by decide
  exact fun member => noPrefix _ member (isPrefix_custom name)

theorem onShelf_custom (name : String) (m : Manga) :
    onShelf (custom name) m = decide (name ∈ m.shelfNames) := by
  have other : ∀ key ∈ "all" :: "favorites" :: statusShelves, custom name ≠ key :=
    fun key isDefault => custom_ne (not_custom isDefault) name
  rw [onShelf, if_neg fun both => other "favorites" (by decide) both.1,
    if_neg fun both => other _ (List.mem_cons_of_mem _ (List.mem_cons_of_mem _ both.1)) rfl,
    shelfName_custom, Option.all_some]

theorem shelfName_default (isDefault : key ∈ "all" :: "favorites" :: statusShelves) :
    shelfName key = none := if_neg (not_custom isDefault)

theorem onShelf_all (m : Manga) : onShelf "all" m = true := by
  rw [onShelf, if_neg (by simp), if_neg (by simp [statusShelves]), shelfName_default (by decide)]
  rfl

theorem onShelf_favorites (m : Manga) : onShelf "favorites" m = m.isFavorite := by
  rw [onShelf, if_neg (c := _ ∈ statusShelves ∧ _) (by simp [statusShelves]),
    shelfName_default (by decide), Option.all_none]
  cases m.isFavorite <;> simp

theorem onShelf_status (isStatus : key ∈ statusShelves) (m : Manga) :
    onShelf key m = decide (m.status = key) := by
  have other : key ≠ "favorites" := by
    rintro rfl
    exact absurd isStatus (by decide)
  have isDefault : key ∈ "all" :: "favorites" :: statusShelves :=
    List.mem_cons_of_mem _ (List.mem_cons_of_mem _ isStatus)
  rw [onShelf, if_neg fun both => other both.1, shelfName_default isDefault, Option.all_none]
  by_cases same : m.status = key
  · simp [same]
  · simp [same, isStatus]

/-- Without tag and search text the shelf alone decides. -/
theorem length_filteredManga (mapping : CaseMapping) (localeCompare : String → String → Int)
    (getTime : String → Option Rat) (activeShelf sortBy : String) (libraryManga : List Manga) :
    (filteredManga mapping localeCompare getTime activeShelf "" "" sortBy libraryManga).length =
      libraryManga.countP (onShelf activeShelf) := by
  have blank : trim "" = "" := by decide
  rw [filteredManga, List.length_mergeSort, List.countP_eq_length_filter]
  simp [hasTag, matchesSearch, blank]

/-! ## One count -/

/-- The record has this number, or no own property. -/
def Shows (res : Counts) (key : String) (o : Option Nat) : Prop := res key = o.map .number

theorem shows_increment (shows : Shows res key o) (noMethod : key ∉ objectMethods)
    (status : String) :
    Shows (increment res status) key (if status = key then o.map (· + 1) else o) := by
  rw [Shows] at shows ⊢
  by_cases same : status = key
  · subst same
    rw [if_pos rfl, increment, shows]
    cases o with
    | none => simpa [noMethod] using shows
    | some n => simp [Count.succ]
  · rw [if_neg same, increment]
    cases res status with
    | none =>
        by_cases isMethod : status ∈ objectMethods
        · simp [isMethod, Function.update_of_ne (Ne.symm same), shows]
        · simp [isMethod, shows]
    | some count => simp [Function.update_of_ne (Ne.symm same), shows]

theorem shows_addOne (shows : Shows res key o) (other : String) :
    Shows (addOne res other) key (if other = key then some (o.getD 0 + 1) else o) := by
  rw [Shows] at shows ⊢
  by_cases same : other = key
  · subst same
    rw [if_pos rfl, addOne, shows]
    cases o <;> simp
  · rw [if_neg same, addOne]
    rcases res other with _ | _ | _ <;> simp [Function.update_of_ne (Ne.symm same), shows]

theorem shows_shelves (shows : Shows res (custom name) o) (names : List String) :
    Shows (names.foldl (fun res s => addOne res (custom s)) res) (custom name)
      (if name ∈ names then some (o.getD 0 + names.count name) else o) := by
  induction names generalizing res o with
  | nil => exact shows
  | cons s names induction =>
      have next := induction (shows_addOne shows (custom s))
      rw [List.foldl_cons]
      convert next using 1
      by_cases same : s = name
      · subst same
        by_cases later : s ∈ names
        · simp [later, Nat.add_assoc, Nat.add_comm 1]
        · simp [later, List.count_eq_zero_of_not_mem later]
      · simp [same, Ne.symm same, custom_inj, List.count_cons_of_ne same]

theorem shows_other_shelves (shows : Shows res key o) (other : ¬"custom:".toList <+: key.toList)
    (names : List String) :
    Shows (names.foldl (fun res s => addOne res (custom s)) res) key o := by
  induction names generalizing res with
  | nil => exact shows
  | cons s names induction =>
      refine induction ?_
      have next := shows_addOne shows (custom s)
      rwa [if_neg (custom_ne other s)] at next

/-- A shelf that everyone has is counted by status and, for the favorites, by the flag. -/
theorem shows_countManga (shows : Shows res key o)
    (isDefault : key ∈ "all" :: "favorites" :: statusShelves) (m : Manga) :
    Shows (countManga res m) key (o.map fun n =>
      n + (if m.status = key then 1 else 0) +
        if m.isFavorite = true ∧ key = "favorites" then 1 else 0) := by
  have noMethod := not_method isDefault
  refine shows_other_shelves ?_ (not_custom isDefault) m.shelfNames
  have ofStatus := shows_increment shows noMethod m.status
  by_cases flag : m.isFavorite = true
  · have ofFlag := shows_increment ofStatus noMethod "favorites"
    rw [if_pos flag]
    convert ofFlag using 1
    cases o <;> grind
  · rw [if_neg flag]
    convert ofStatus using 1
    cases o <;> grind

theorem shows_default (isDefault : key ∈ "all" :: "favorites" :: statusShelves) {n : Nat}
    (shows : Shows res key (some n)) :
    Shows (libraryManga.foldl countManga res) key (some
      (n + libraryManga.countP (fun m => m.status = key) +
        libraryManga.countP fun m => m.isFavorite = true ∧ key = "favorites")) := by
  induction libraryManga generalizing res n with
  | nil => exact shows
  | cons m libraryManga induction =>
      have next := induction (shows_countManga shows isDefault m)
      rw [List.foldl_cons]
      convert next using 2
      simp only [List.countP_cons, decide_eq_true_eq]
      omega

/-! ## The count of a custom shelf -/

theorem shows_countManga_custom (shows : Shows res (custom name) o) (m : Manga) :
    Shows (countManga res m) (custom name)
      (if name ∈ m.shelfNames then
        some ((if m.status = custom name then o.map (· + 1) else o).getD 0 + m.shelfNames.count name)
      else if m.status = custom name then o.map (· + 1) else o) := by
  have noMethod := custom_not_method name
  have notFlag : "favorites" ≠ custom name := (custom_ne (not_custom (by decide)) name).symm
  have ofStatus := shows_increment shows noMethod m.status
  refine shows_shelves ?_ m.shelfNames
  by_cases flag : m.isFavorite = true
  · have ofFlag := shows_increment ofStatus noMethod "favorites"
    rw [if_neg notFlag] at ofFlag
    rwa [if_pos flag]
  · rwa [if_neg flag]

/-- No manga lists the shelf twice, and none behind a manga of the shelf has its id as status. -/
structure Fair (name : String) (libraryManga : List Manga) : Prop where
  once : ∀ m ∈ libraryManga, m.shelfNames.count name ≤ 1
  order : libraryManga.Pairwise fun other m => name ∈ other.shelfNames → m.status ≠ custom name

theorem fair_concat : Fair name (libraryManga ++ [m]) ↔
    Fair name libraryManga ∧ m.shelfNames.count name ≤ 1 ∧
      (m.status = custom name → libraryManga.countP (name ∈ ·.shelfNames) = 0) := by
  have noneBefore : (m.status = custom name → libraryManga.countP (name ∈ ·.shelfNames) = 0) ↔
      ∀ other ∈ libraryManga, name ∈ other.shelfNames → m.status ≠ custom name := by
    simp only [List.countP_eq_zero, decide_eq_true_eq]
    exact ⟨fun all other member listed same => all same other member listed,
      fun all same other member listed => all other member listed same⟩
  rw [noneBefore]
  constructor
  · intro fair
    rcases List.pairwise_append.mp fair.order with ⟨before, _, across⟩
    exact ⟨⟨fun other member => fair.once other (List.mem_append_left _ member), before⟩,
      fair.once m (by simp), fun other member => across other member m List.mem_cons_self⟩
  · rintro ⟨fair, once, across⟩
    refine ⟨List.forall_mem_append.mpr ⟨fair.once, by simpa using once⟩, ?_⟩
    exact List.pairwise_append.mpr ⟨fair.order, List.pairwise_singleton _ m, by simpa using across⟩

theorem fair_of_absent (absent : libraryManga.countP (name ∈ ·.shelfNames) = 0) :
    Fair name libraryManga := by
  simp only [List.countP_eq_zero, decide_eq_true_eq] at absent
  refine ⟨fun m member => ?_, List.pairwise_iff_forall_sublist.mpr fun inside listed => ?_⟩
  · rw [List.count_eq_zero_of_not_mem (absent m member)]
    exact Nat.zero_le 1
  · exact absurd listed (absent _ (inside.subset List.mem_cons_self))

/-- The count of a custom shelf is too high by every repetition and by every such status. -/
theorem shows_custom (shows : Shows res (custom name) none) (libraryManga : List Manga) :
    ∃ extra, Shows (libraryManga.foldl countManga res) (custom name)
        (if libraryManga.countP (name ∈ ·.shelfNames) = 0 then none
        else some (libraryManga.countP (name ∈ ·.shelfNames) + extra)) ∧
      (extra = 0 ↔ Fair name libraryManga) := by
  induction libraryManga using List.reverseRecOn with
  | nil => exact ⟨0, shows, iff_of_true rfl ⟨by simp, List.Pairwise.nil⟩⟩
  | append_singleton libraryManga m induction =>
      rcases induction with ⟨extra, before, fair⟩
      have next := shows_countManga_custom before m
      have size : (libraryManga ++ [m]).countP (name ∈ ·.shelfNames) =
          libraryManga.countP (name ∈ ·.shelfNames) + if name ∈ m.shelfNames then 1 else 0 := by
        simp [List.countP_append, List.countP_cons]
      have nothing : libraryManga.countP (name ∈ ·.shelfNames) = 0 → extra = 0 := fun absent =>
        fair.mpr (fair_of_absent absent)
      have listed : m.shelfNames.count name = 0 ↔ name ∉ m.shelfNames := List.count_eq_zero
      refine ⟨extra + (m.shelfNames.count name - 1) +
        (if m.status = custom name ∧ libraryManga.countP (name ∈ ·.shelfNames) ≠ 0 then 1 else 0),
        ?_, ?_⟩
      · rw [List.foldl_concat]
        convert next using 1
        rw [size]
        have positive : name ∈ m.shelfNames → 0 < m.shelfNames.count name := List.count_pos_iff.mpr
        grind
      · rw [fair_concat, ← fair]
        grind

/-! ## Counts and filter -/

/-- The count of a shelf is the number of manga on it. -/
def Agrees (libraryManga : List Manga) (key : String) : Prop :=
  counts libraryManga key = some (.number (libraryManga.countP (onShelf key)))

theorem agrees_of_shows {n : Nat} (shows : Shows (counts libraryManga) key (some n)) :
    Agrees libraryManga key ↔ n = libraryManga.countP (onShelf key) := by
  rw [Shows] at shows
  rw [Agrees, shows]
  simp

theorem countP_status_eq_zero (status : String) :
    libraryManga.countP (fun m => m.status = status) = 0 ↔
      ∀ m ∈ libraryManga, m.status ≠ status := by
  simp [List.countP_eq_zero]

theorem agrees_all : Agrees libraryManga "all" ↔ ∀ m ∈ libraryManga, m.status ≠ "all" := by
  have shows : Shows (initialCounts libraryManga.length) "all" (some libraryManga.length) := rfl
  have everyone : libraryManga.countP (onShelf "all") = libraryManga.length := by
    simp [List.countP_eq_length, onShelf_all]
  rw [agrees_of_shows (shows_default (by decide) shows), everyone, ← countP_status_eq_zero]
  simp

theorem agrees_favorites :
    Agrees libraryManga "favorites" ↔ ∀ m ∈ libraryManga, m.status ≠ "favorites" := by
  have shows : Shows (initialCounts libraryManga.length) "favorites" (some 0) := rfl
  rw [agrees_of_shows (shows_default (by decide) shows), ← countP_status_eq_zero]
  simp [funext onShelf_favorites]

theorem agrees_status (isStatus : key ∈ statusShelves) : Agrees libraryManga key := by
  have notAll : key ≠ "all" := by
    rintro rfl
    exact absurd isStatus (by decide)
  have notFlag : key ≠ "favorites" := by
    rintro rfl
    exact absurd isStatus (by decide)
  have isDefault : key ∈ "all" :: "favorites" :: statusShelves :=
    List.mem_cons_of_mem _ (List.mem_cons_of_mem _ isStatus)
  have shows : Shows (initialCounts libraryManga.length) key (some 0) := by
    rw [Shows, initialCounts, if_neg notAll, if_pos (.inr isStatus)]
    rfl
  rw [agrees_of_shows (shows_default isDefault shows)]
  simp [funext (onShelf_status isStatus), notFlag]

theorem agrees_custom (listed : ∃ m ∈ libraryManga, name ∈ m.shelfNames) :
    Agrees libraryManga (custom name) ↔ Fair name libraryManga := by
  have other : ∀ key ∈ "all" :: "favorites" :: statusShelves, custom name ≠ key :=
    fun key isDefault => custom_ne (not_custom isDefault) name
  have absent : Shows (initialCounts libraryManga.length) (custom name) none := by
    rw [Shows, initialCounts, if_neg (other "all" (by decide)), if_neg]
    · rfl
    · rintro (same | isStatus)
      · exact other "favorites" (by decide) same
      · exact other _ (List.mem_cons_of_mem _ (List.mem_cons_of_mem _ isStatus)) rfl
  rcases shows_custom absent libraryManga with ⟨extra, shows, fair⟩
  have found : libraryManga.countP (name ∈ ·.shelfNames) ≠ 0 := by
    simpa [List.countP_eq_zero] using listed
  rw [if_neg found] at shows
  rw [agrees_of_shows shows, funext (onShelf_custom name), ← fair]
  omega

theorem mem_customShelves : name ∈ customShelves libraryManga ↔
    (∃ m ∈ libraryManga, name ∈ m.shelfNames) ∧ name ≠ "" := by
  simp [customShelves]

/-- No status is a key of the counts that stands for no status, and no manga lists a shelf
twice. -/
structure Regular (libraryManga : List Manga) : Prop where
  statuses : ∀ m ∈ libraryManga, m.status ≠ "all" ∧ m.status ≠ "favorites"
  once : ∀ m ∈ libraryManga, ∀ name, name ≠ "" → m.shelfNames.count name ≤ 1
  order : libraryManga.Pairwise fun other m =>
    ∀ name, name ≠ "" → name ∈ other.shelfNames → m.status ≠ custom name

theorem fair_iff : (∀ name ∈ customShelves libraryManga, Fair name libraryManga) ↔
    (∀ m ∈ libraryManga, ∀ name, name ≠ "" → m.shelfNames.count name ≤ 1) ∧
      libraryManga.Pairwise fun other m =>
        ∀ name, name ≠ "" → name ∈ other.shelfNames → m.status ≠ custom name := by
  constructor
  · intro fair
    refine ⟨fun m member name proper => ?_, List.pairwise_iff_forall_sublist.mpr ?_⟩
    · by_cases listed : name ∈ m.shelfNames
      · exact (fair name (mem_customShelves.mpr ⟨⟨m, member, listed⟩, proper⟩)).once m member
      · rw [List.count_eq_zero_of_not_mem listed]
        exact Nat.zero_le 1
    · intro other m inside name proper listed
      have member : other ∈ libraryManga := inside.subset List.mem_cons_self
      have ofName := fair name (mem_customShelves.mpr ⟨⟨other, member, listed⟩, proper⟩)
      exact List.pairwise_iff_forall_sublist.mp ofName.order inside listed
  · rintro ⟨once, order⟩ name member
    have proper := (mem_customShelves.mp member).2
    exact ⟨fun m isManga => once m isManga name proper, order.imp fun all => all name proper⟩

/-- Every count that is shown is the number of manga that the shelf lists, unless a status is
counted on a shelf that is not one of a status or a manga repeats a shelf. -/
theorem counts_agree_iff (mapping : CaseMapping) (localeCompare : String → String → Int)
    (getTime : String → Option Rat) (sortBy : String) (libraryManga : List Manga) :
    (∀ shelf ∈ allShelves libraryManga, counts libraryManga shelf.id =
      some (.number (filteredManga mapping localeCompare getTime shelf.id "" "" sortBy
        libraryManga).length)) ↔ Regular libraryManga := by
  simp only [length_filteredManga]
  change (∀ shelf ∈ allShelves libraryManga, Agrees libraryManga shelf.id) ↔ _
  have ofCustom : (∀ name ∈ customShelves libraryManga, Agrees libraryManga (custom name)) ↔
      ∀ name ∈ customShelves libraryManga, Fair name libraryManga :=
    forall₂_congr fun name member => agrees_custom (mem_customShelves.mp member).1
  have ofDefault : (∀ shelf ∈ defaultShelves, Agrees libraryManga shelf.id) ↔
      ∀ m ∈ libraryManga, m.status ≠ "all" ∧ m.status ≠ "favorites" := by
    constructor
    · intro all m member
      have ofAll := all { id := "all", label := "All" } (by simp [defaultShelves])
      have ofFlag := all { id := "favorites", label := "Favorites", isFavorite := some true }
        (by simp [defaultShelves])
      exact ⟨agrees_all.mp ofAll m member, agrees_favorites.mp ofFlag m member⟩
    · intro statuses shelf member
      have isDefault := defaultShelves_ids (List.mem_map_of_mem member)
      generalize shelf.id = key at isDefault ⊢
      rcases List.mem_cons.mp isDefault with rfl | later
      · exact agrees_all.mpr fun m isManga => (statuses m isManga).1
      · rcases List.mem_cons.mp later with rfl | isStatus
        · exact agrees_favorites.mpr fun m isManga => (statuses m isManga).2
        · exact agrees_status isStatus
  rw [allShelves, List.forall_mem_append, List.forall_mem_map, ofCustom, fair_iff, ofDefault]
  exact ⟨fun both => ⟨both.1, both.2.1, both.2.2⟩,
    fun regular => ⟨regular.statuses, regular.once, regular.order⟩⟩

def repeated : Manga := { shelves := some ["Shonen", "Shonen"] }

theorem repeated_shelf_is_counted_twice : "Shonen" ∈ customShelves [repeated] ∧
    counts [repeated] (custom "Shonen") = some (.number 2) ∧
      (filteredManga .ascii (fun _ _ => 0) (fun _ => none) (custom "Shonen") "" "" "title_asc"
        [repeated]).length = 1 := by
  decide +kernel

end Kiyomi.Web.LibraryFilters
