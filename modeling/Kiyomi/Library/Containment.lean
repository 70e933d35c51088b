import Kiyomi.Go.LexicalPath
import Kiyomi.Library.Files

namespace Kiyomi.Library

open Go

/-! # Containment in the library root

The paths of the library as strings, for a root as it is configured: absolute or relative,
clean or not. -/

structure LibraryAt where
  root : String
  parseURL : String → Option URL
  toLower : String → String

/-- A path strictly below a directory: names are joined to it, and none is `.` or `..`. -/
def StrictlyBelow (dir path : String) : Prop :=
  ∃ below, below ≠ [] ∧ (∀ name ∈ below, isName name = true) ∧ path = joinPath (clean dir) below

/-- A relative path that leaves its directory. -/
def leaves : Option String → Bool
  | none => true
  | some rel => hasPrefix rel ".."

namespace LibraryAt

variable (l : LibraryAt)

/-- The layout below the root. -/
def layout : Layout where
  root := (lexical l.root).names
  parseURL := l.parseURL
  toLower := l.toLower

def sanitizeID (id : String) : String := l.layout.sanitizeID id

def mangaDir (mangaID : String) : Except PathError String :=
  let cleanRoot := clean l.root
  let id := l.sanitizeID mangaID
  if id = "" then .error .emptyMangaID
  else
    let dir := clean (joinPath cleanRoot [id])
    let rel := rel cleanRoot dir
    if leaves rel || rel == some "." then .error .mangaOutsideRoot else .ok dir

def providerChapterDir (mangaID providerID chapterID : String) : Except PathError String :=
  match l.mangaDir mangaID with
  | .error refused => .error refused
  | .ok mDir =>
      let cleanRoot := clean l.root
      let pID := l.sanitizeID providerID
      let cID := l.sanitizeID chapterID
      if pID = "" ∨ cID = "" then .error .emptyChapterPath
      else
        let dir := clean (joinPath mDir [pID, cID])
        let rel := rel cleanRoot dir
        if leaves rel || rel == some "." then .error .chapterOutsideRoot else .ok dir

/-- The file that `getChapterPages` reads without a manga id. -/
def pagesPath (chapterID : String) : Option String :=
  let chapterID := l.sanitizeID chapterID
  let cleanRoot := clean l.root
  if chapterID = "" then none
  else
    let path := clean (joinPath cleanRoot ["_pages", chapterID ++ ".json"])
    if leaves (rel cleanRoot path) then none else some path

/-- The directory and the file that `saveChapterPages` writes without a manga id. -/
def pagesTarget (chapterID : String) : Option (String × String) :=
  let chapterID := l.sanitizeID chapterID
  let cleanRoot := clean l.root
  if chapterID = "" then none
  else
    let targetDir := clean (joinPath cleanRoot ["_pages"])
    let targetFile := clean (joinPath targetDir [chapterID ++ ".json"])
    if leaves (rel cleanRoot targetFile) then none else some (targetDir, targetFile)

/-! ## The directories -/

theorem joinPath_text (p : Lexical) (elements : List String) :
    joinPath p.text elements =
      (p.walk (elements.flatMap fun element => split element '/')).text := by
  rw [joinPath_eq p.text_ne_empty, lexical_text]

theorem strictlyBelow_iff {dir : Lexical} {path : String} :
    StrictlyBelow dir.text path ↔
      ∃ below, below ≠ [] ∧ (∀ name ∈ below, isName name = true) ∧
        path = (dir.walk below).text := by
  have pieces {below : List String} (valid : ∀ name ∈ below, isName name = true) :
      below.flatMap (fun element => split element '/') = below := by
    rw [List.flatMap_congr fun name member => split_of_isName (valid name member),
      List.flatMap_singleton']
  refine exists_congr fun below => and_congr_right fun _ => and_congr_right fun valid => ?_
  rw [clean_text, joinPath_text, pieces valid]

theorem strictlyBelow_clean {dir path : String} :
    StrictlyBelow dir path ↔ StrictlyBelow (lexical dir).text path := by
  rw [StrictlyBelow, StrictlyBelow, clean_text]
  rfl

/-- The check of the directories keeps them strictly inside. -/
theorem below_of_check {root : String} {target : Lexical}
    (check : (leaves (rel (clean root) target.text) ||
      rel (clean root) target.text == some ".") = false) :
    ∃ below, below ≠ [] ∧ (∀ name ∈ below, isName name = true) ∧
      target = (lexical root).walk below := by
  have isText : clean root = (lexical root).text := rfl
  rw [isText, Bool.or_eq_false_iff] at check
  cases isRel : rel (lexical root).text target.text with
  | none =>
      rw [isRel] at check
      exact absurd check.1 (by simp [leaves])
  | some path =>
      rw [isRel] at check
      rcases descends_of_rel isRel check.1 with ⟨rfl, _⟩ | below
      · exact absurd check.2 (by simp)
      · exact below

variable {l}

theorem mangaDir_text {mangaID dir : String} (located : l.mangaDir mangaID = .ok dir) :
    l.sanitizeID mangaID ≠ "" ∧
      dir = ((lexical l.root).walk (split (l.sanitizeID mangaID) '/')).text ∧
      ∃ below, below ≠ [] ∧ (∀ name ∈ below, isName name = true) ∧
        (lexical l.root).walk (split (l.sanitizeID mangaID) '/') = (lexical l.root).walk below := by
  simp only [mangaDir, joinPath_clean, clean_text, List.flatMap_singleton] at located
  split at located
  · contradiction
  · rename_i nonempty
    split at located
    · contradiction
    · rename_i check
      rw [Bool.not_eq_true] at check
      exact ⟨nonempty, (Except.ok.inj located).symm, below_of_check check⟩

theorem providerChapterDir_text {mangaID providerID chapterID dir : String}
    (located : l.providerChapterDir mangaID providerID chapterID = .ok dir) :
    ∃ mDir, l.mangaDir mangaID = .ok mDir ∧
      dir = ((lexical l.root).walk (split (l.sanitizeID mangaID) '/' ++
        (split (l.sanitizeID providerID) '/' ++ split (l.sanitizeID chapterID) '/'))).text ∧
      ∃ below, below ≠ [] ∧ (∀ name ∈ below, isName name = true) ∧
        (lexical l.root).walk (split (l.sanitizeID mangaID) '/' ++
          (split (l.sanitizeID providerID) '/' ++ split (l.sanitizeID chapterID) '/')) =
          (lexical l.root).walk below := by
  rw [providerChapterDir] at located
  cases isManga : l.mangaDir mangaID with
  | error refused =>
      rw [isManga] at located
      cases located
  | ok mDir =>
      have isDir := (mangaDir_text isManga).2.1
      rw [isManga] at located
      simp only [isDir, joinPath_text, clean_text, ← Lexical.walk_append, List.flatMap_cons,
        List.flatMap_nil, List.append_nil] at located
      split at located
      · cases located
      · split at located
        · cases located
        · rename_i check
          rw [Bool.not_eq_true] at check
          exact ⟨mDir, rfl, (Except.ok.inj located).symm, below_of_check check⟩

/-! ## An absolute root

There the strings are the paths of the layout. -/

theorem check_eq_within (isRooted : (lexical l.root).rooted = true) {target : Lexical}
    (targetRooted : target.rooted = true) :
    (leaves (rel (clean l.root) target.text) || rel (clean l.root) target.text == some ".") =
      !l.layout.within target.names := by
  have isText : clean l.root = (lexical l.root).text := rfl
  by_cases inRoot : (lexical l.root).names <+: target.names
  · rcases inRoot with ⟨below, parts⟩
    have valid : ∀ name ∈ below, isName name = true :=
      fun name member => target.valid name (parts ▸ List.mem_append_right _ member)
    have walked := Lexical.walk_names valid (lexical l.root)
    have isWalk : target = (lexical l.root).walk below := by
      refine Lexical.ext ?_ ?_ ?_
      · rw [walked.1, isRooted, targetRooted]
      · rw [walked.2.1, (lexical l.root).rootless isRooted, target.rootless targetRooted]
      · rw [walked.2.2, parts]
    have isPrefix : l.layout.root.isPrefixOf target.names = true :=
      List.isPrefixOf_iff_prefix.mpr ⟨below, parts⟩
    have rest : target.names.drop l.layout.root.length = below := by
      rw [← parts]
      exact List.drop_left
    rw [Layout.within, isPrefix, rest, Bool.true_and, isText, isWalk]
    cases below with
    | nil =>
        have isRoot : (lexical l.root).walk [] = lexical l.root := rfl
        rw [isRoot, rel, if_pos rfl]
        rfl
    | cons first others =>
        have firstValid := valid first List.mem_cons_self
        have nonempty : first ≠ "" := by
          simp only [isName, Bool.and_eq_true, bne_iff_ne] at firstValid
          exact firstValid.1.1.1
        have notDot : "/".intercalate (first :: others) ≠ "." := by
          intro isDot
          have pieces := split_intercalate (List.cons_ne_nil first others) fun piece member => by
            have isValid := valid piece member
            simp only [isName, Bool.and_eq_true, Bool.not_eq_true', List.contains_eq_mem,
              decide_eq_false_iff_not] at isValid
            exact isValid.2
          rw [isDot, show split "." '/' = ["."] by decide, List.cons.injEq] at pieces
          rw [← pieces.1] at firstValid
          exact absurd firstValid (by decide)
        have notSame : (some ("/".intercalate (first :: others)) == some ".") = false := by
          simpa using notDot
        rw [rel_walk _ (List.cons_ne_nil first others) valid, leaves,
          hasPrefix_intercalate nonempty, notSame, Bool.or_false, Bool.not_not]
  · have notPrefix : l.layout.root.isPrefixOf target.names = false := by
      rw [← Bool.not_eq_true, List.isPrefixOf_iff_prefix]
      exact inRoot
    rw [Layout.within, notPrefix, Bool.false_and, Bool.not_false]
    by_contra check
    rw [Bool.not_eq_true] at check
    rcases below_of_check check with ⟨below, _, valid, rfl⟩
    exact inRoot ⟨below, (Lexical.walk_names valid _).2.2.symm⟩

theorem text_rooted {p : Lexical} (isRooted : p.rooted = true) :
    p.text = "/" ++ "/".intercalate p.names := by
  rw [Lexical.text, if_pos isRooted, Lexical.parts, p.rootless isRooted]
  rfl

theorem join_layout (isRooted : (lexical l.root).rooted = true) (mangaID : String) :
    join l.layout.root [l.sanitizeID mangaID] =
      ((lexical l.root).walk (split (l.sanitizeID mangaID) '/')).names := by
  rw [← List.flatMap_singleton (f := fun element => split element '/')]
  exact join_eq_walk isRooted _

theorem mangaDir_layout (isRooted : (lexical l.root).rooted = true) (mangaID : String) :
    l.mangaDir mangaID =
      (l.layout.mangaDir mangaID).map fun dir => "/" ++ "/".intercalate dir := by
  have targetRooted : ((lexical l.root).walk (split (l.sanitizeID mangaID) '/')).rooted = true :=
    (Lexical.walk_rooted ..).trans isRooted
  have isSame : l.layout.sanitizeID mangaID = l.sanitizeID mangaID := rfl
  simp only [mangaDir, Layout.mangaDir, joinPath_clean, clean_text, List.flatMap_singleton,
    check_eq_within isRooted targetRooted, join_layout isRooted, isSame]
  rw [text_rooted targetRooted]
  split
  · rfl
  · cases l.layout.within ((lexical l.root).walk (split (l.sanitizeID mangaID) '/')).names <;> rfl

theorem providerChapterDir_layout (isRooted : (lexical l.root).rooted = true)
    (mangaID providerID chapterID : String) :
    l.providerChapterDir mangaID providerID chapterID =
      (l.layout.providerChapterDir mangaID providerID chapterID).map fun dir =>
        "/" ++ "/".intercalate dir := by
  rw [providerChapterDir, Layout.providerChapterDir, mangaDir_layout isRooted]
  cases isManga : l.layout.mangaDir mangaID with
  | error refused => rfl
  | ok mDir =>
      have isDir : mDir = ((lexical l.root).walk (split (l.sanitizeID mangaID) '/')).names := by
        have same : l.layout.sanitizeID mangaID = l.sanitizeID mangaID := rfl
        simp only [Layout.mangaDir, same, join_layout isRooted] at isManga
        split at isManga
        · cases isManga
        · split at isManga
          · exact (Except.ok.inj isManga).symm
          · cases isManga
      have mangaRooted :
          ((lexical l.root).walk (split (l.sanitizeID mangaID) '/')).rooted = true :=
        (Lexical.walk_rooted ..).trans isRooted
      have targetRooted (elements : List String) :
          (((lexical l.root).walk (split (l.sanitizeID mangaID) '/')).walk elements).rooted = true :=
        (Lexical.walk_rooted ..).trans mangaRooted
      have same (id : String) : l.layout.sanitizeID id = l.sanitizeID id := rfl
      have joined := join_eq_walk mangaRooted [l.sanitizeID providerID, l.sanitizeID chapterID]
      simp only [Except.map, isDir, ← text_rooted mangaRooted, joinPath_text, clean_text,
        check_eq_within isRooted (targetRooted _), joined, same]
      rw [text_rooted (targetRooted _)]
      generalize Lexical.names _ = names
      split
      · rfl
      · cases l.layout.within names <;> rfl

/-! ## The page files -/

/-- The path of a page file, relative to the directory of all pages. -/
def pagesName (l : LibraryAt) (chapterID : String) : Lexical :=
  .relative (split (l.sanitizeID chapterID ++ ".json") '/')

/-- The chapter id climbs out of the directory of all pages and out of the root, and then spells
the names of the root again. -/
def LeadsBack (l : LibraryAt) (chapterID : String) : Prop :=
  let names := (lexical l.root).names
  let page := l.pagesName chapterID
  1 < page.ups ∧ ((lexical l.root).rooted = true ∨ page.ups ≤ names.length + 1) ∧
    page.names = names.drop (names.length - (page.ups - 1))

theorem pagesName_names (l : LibraryAt) (chapterID : String) :
    (l.pagesName chapterID).names ≠ [] := by
  rcases split_suffix (by decide : '/' ∉ ".json".toList) (l.sanitizeID chapterID) with
    ⟨front, last, pieces, noSlash⟩
  have long : 5 ≤ (last ++ ".json").length := by
    rw [String.length_append]
    exact Nat.le_add_left 5 _
  have isValid : isName (last ++ ".json") = true := by
    simp only [isName, Bool.and_eq_true, bne_iff_ne, Bool.not_eq_true', List.contains_eq_mem,
      decide_eq_false_iff_not]
    refine ⟨⟨⟨?_, ?_⟩, ?_⟩, ?_⟩
    · intro same
      rw [same] at long
      contradiction
    · intro same
      rw [same] at long
      contradiction
    · intro same
      rw [same] at long
      contradiction
    · rw [String.toList_append, List.mem_append, not_or]
      exact ⟨noSlash, by decide⟩
  have differs : last ++ ".json" ≠ ".." := by
    intro same
    rw [same] at long
    contradiction
  have isStep : l.pagesName chapterID =
      (Lexical.relative front).down (last ++ ".json") isValid := by
    rw [pagesName, pieces, Lexical.relative, Lexical.walk_append]
    change Lexical.step _ _ = _
    rw [Lexical.step, if_neg differs, dif_pos isValid]
    rfl
  rw [isStep]
  simp [Lexical.down]

/-- A list is left and found again. -/
theorem take_append_eq_iff {names back : List String} (nonempty : back ≠ []) (next : String)
    (count : Nat) :
    (names ++ [next]).take (names.length + 1 - count) ++ back = names ↔
      1 < count ∧ back = names.drop (names.length - (count - 1)) := by
  have length := List.length_pos_iff.mpr nonempty
  have front (climbs : 1 < count) : (names ++ [next]).take (names.length + 1 - count) =
      names.take (names.length - (count - 1)) := by
    rw [List.take_append_of_le_length (by omega)]
    congr 1
    omega
  constructor
  · intro same
    have climbs : 1 < count := by
      have lengths := congrArg List.length same
      rw [List.length_append, List.length_take, List.length_append, List.length_singleton] at lengths
      omega
    rw [front climbs] at same
    refine ⟨climbs, ?_⟩
    exact List.append_cancel_left (same.trans (List.take_append_drop _ names).symm)
  · rintro ⟨climbs, rfl⟩
    rw [front climbs, List.take_append_drop]

/-- The page file is the root itself exactly if its chapter id leads back. -/
theorem leadsBack_iff (l : LibraryAt) (chapterID : String) :
    (lexical l.root).walk ("_pages" :: split (l.sanitizeID chapterID ++ ".json") '/') =
      lexical l.root ↔ l.LeadsBack chapterID := by
  have pages := Lexical.walk_names (by decide : ∀ name ∈ ["_pages"], isName name = true)
    (lexical l.root)
  have named := l.pagesName_names chapterID
  change ((lexical l.root).walk ["_pages"]).walk (split (l.sanitizeID chapterID ++ ".json") '/') =
    lexical l.root ↔ _
  rw [Lexical.walk_eq_append, LeadsBack, Lexical.ext_iff]
  change _ ∧ (if _ then _ else _) = _ ∧ _ ++ (l.pagesName chapterID).names = _ ↔ _
  have isPage : Lexical.relative (split (l.sanitizeID chapterID ++ ".json") '/') =
      l.pagesName chapterID := rfl
  rw [Lexical.append_rooted, pages.1, pages.2.1, pages.2.2, List.length_append,
    List.length_singleton, isPage, take_append_eq_iff named]
  constructor
  · rintro ⟨_, ups, climbs, back⟩
    refine ⟨climbs, ?_, back⟩
    split at ups
    · exact .inl ‹_›
    · exact .inr (Nat.sub_eq_zero_iff_le.mp (Nat.add_eq_left.mp ups))
  · rintro ⟨climbs, inRoot, back⟩
    refine ⟨rfl, ?_, climbs, back⟩
    split
    · rfl
    · rcases inRoot with isRooted | short
      · contradiction
      · exact Nat.add_eq_left.mpr (Nat.sub_eq_zero_iff_le.mpr short)

theorem pagesTarget_eq (l : LibraryAt) (chapterID : String) :
    l.pagesTarget chapterID =
      (l.pagesPath chapterID).map fun path => (clean (joinPath (clean l.root) ["_pages"]), path) := by
  have sameFile : clean (joinPath (clean (joinPath (clean l.root) ["_pages"]))
      [l.sanitizeID chapterID ++ ".json"]) =
      clean (joinPath (clean l.root) ["_pages", l.sanitizeID chapterID ++ ".json"]) := by
    rw [joinPath_clean, joinPath_clean, lexical_text, ← Lexical.walk_append, ← List.flatMap_append,
      clean_text, joinPath_clean, clean_text]
    rfl
  simp only [pagesTarget, pagesPath, sameFile]
  split
  · rfl
  · split <;> rfl

/-- The directories of a manga and of a chapter and the page file lie strictly below the root. -/
structure Contained (l : LibraryAt) (mangaID providerID chapterID : String) : Prop where
  mangaDir : ∀ dir, l.mangaDir mangaID = .ok dir → StrictlyBelow l.root dir
  providerChapterDir : ∀ dir, l.providerChapterDir mangaID providerID chapterID = .ok dir →
    StrictlyBelow l.root dir
  pagesPath : ∀ path, l.pagesPath chapterID = some path → StrictlyBelow l.root path
  pagesTarget : ∀ targetDir targetFile, l.pagesTarget chapterID = some (targetDir, targetFile) →
    StrictlyBelow l.root targetFile

/-- The page file in normal form. -/
def pagesFile (l : LibraryAt) (chapterID : String) : Lexical :=
  (lexical l.root).walk ("_pages" :: split (l.sanitizeID chapterID ++ ".json") '/')

theorem pagesPath_eq (l : LibraryAt) (chapterID : String) :
    l.pagesPath chapterID =
      if l.sanitizeID chapterID = "" then none
      else if leaves (rel (lexical l.root).text (l.pagesFile chapterID).text) then none
      else some (l.pagesFile chapterID).text := by
  have pieces : (["_pages", l.sanitizeID chapterID ++ ".json"].flatMap fun element =>
      split element '/') = "_pages" :: split (l.sanitizeID chapterID ++ ".json") '/' := by
    rw [List.flatMap_cons, List.flatMap_singleton, split_of_isName (by decide), List.singleton_append]
  simp only [pagesPath, joinPath_clean, clean_text, pieces]
  rfl

/-- The page file is checked, but may be the root itself. -/
theorem pagesPath_cases {chapterID path : String} (located : l.pagesPath chapterID = some path) :
    l.LeadsBack chapterID ∨ StrictlyBelow l.root path := by
  rw [pagesPath_eq] at located
  split at located
  · cases located
  · split at located
    · cases located
    · rename_i check
      rw [Bool.not_eq_true] at check
      rw [← Option.some.inj located]
      cases isRel : rel (lexical l.root).text (l.pagesFile chapterID).text with
      | none =>
          rw [isRel] at check
          exact absurd check (by simp [leaves])
      | some rel =>
          rw [isRel] at check
          rcases descends_of_rel isRel check with ⟨_, isRoot⟩ | ⟨below, nonempty, valid, same⟩
          · exact .inl ((l.leadsBack_iff chapterID).mp isRoot)
          · rw [strictlyBelow_clean, strictlyBelow_iff]
            exact .inr ⟨below, nonempty, valid, congrArg Lexical.text same⟩

theorem pagesPath_of_leadsBack {chapterID : String} (back : l.LeadsBack chapterID) :
    l.pagesPath chapterID = some (clean l.root) := by
  have isRoot : l.pagesFile chapterID = lexical l.root := (l.leadsBack_iff chapterID).mpr back
  have nonempty : l.sanitizeID chapterID ≠ "" := by
    intro empty
    have noUps : (l.pagesName chapterID).ups = 0 := by
      rw [pagesName, empty]
      decide
    have climbs := back.1
    rw [noUps] at climbs
    contradiction
  have check : leaves (rel (lexical l.root).text (lexical l.root).text) = false := by
    rw [rel, if_pos rfl]
    decide
  rw [pagesPath_eq, if_neg nonempty, isRoot, check]
  rfl

theorem not_strictlyBelow_self (dir : String) : ¬StrictlyBelow dir (clean dir) := by
  rw [strictlyBelow_clean, strictlyBelow_iff]
  rintro ⟨below, nonempty, valid, same⟩
  have names := (Lexical.walk_names valid (lexical dir)).2.2
  rw [← Lexical.text_injective same] at names
  exact nonempty (List.self_eq_append_right.mp names)

theorem contained_iff (l : LibraryAt) (mangaID providerID chapterID : String) :
    l.Contained mangaID providerID chapterID ↔ ¬l.LeadsBack chapterID := by
  constructor
  · intro contained back
    exact not_strictlyBelow_self l.root (contained.pagesPath _ (pagesPath_of_leadsBack back))
  · intro stays
    refine ⟨fun dir located => ?_, fun dir located => ?_,
      fun path located => (pagesPath_cases located).resolve_left stays,
      fun targetDir targetFile located => ?_⟩
    · rcases (mangaDir_text located).2 with ⟨rfl, below, nonempty, valid, same⟩
      rw [strictlyBelow_clean, strictlyBelow_iff]
      exact ⟨below, nonempty, valid, congrArg Lexical.text same⟩
    · rcases providerChapterDir_text located with ⟨_, _, rfl, below, nonempty, valid, same⟩
      rw [strictlyBelow_clean, strictlyBelow_iff]
      exact ⟨below, nonempty, valid, congrArg Lexical.text same⟩
    · rw [pagesTarget_eq] at located
      rcases Option.map_eq_some_iff.mp located with ⟨path, isPath, same⟩
      rw [← (Prod.mk.inj same).2]
      exact (pagesPath_cases isPath).resolve_left stays

/-- A library whose root has the name of a page file, and a chapter id that leads to it. -/
theorem pages_reach_root :
    (LibraryAt.mk "/srv/lib.json" (fun _ => none) id).pagesPath "../../lib" =
        some "/srv/lib.json" ∧
      ¬(LibraryAt.mk "/srv/lib.json" (fun _ => none) id).Contained "frieren" "mangadex"
        "../../lib" := by
  have back : (LibraryAt.mk "/srv/lib.json" (fun _ => none) id).LeadsBack "../../lib" := by
    unfold LeadsBack
    decide +kernel
  have isRoot := pagesPath_of_leadsBack back
  have isClean : clean "/srv/lib.json" = "/srv/lib.json" := by decide +kernel
  refine ⟨isRoot.trans (congrArg some isClean), fun contained => ?_⟩
  exact not_strictlyBelow_self _ (contained.pagesPath _ isRoot)

end LibraryAt

end Kiyomi.Library
