import Kiyomi.Foundation.Program
import Kiyomi.Go.Filepath
import Mathlib.Data.List.Infix

namespace Kiyomi

/-! # Programs on a file system

The calls that a program makes of the system, each of which the system may also refuse,
and questions to whatever else the program depends on. The state keeps what the calls have
done to files. -/

inductive FileError
  | notExist
  | exist
  | other
  deriving DecidableEq, Repr

inductive FileCall (Content Question : Type)
  | stat (path : Path)
  | readFile (path : Path)
  | readDir (path : Path)
  | mkdirAll (path : Path)
  /-- `os.CreateTemp`; the name begins with `base`. -/
  | createTemp (dir : Path) (base : String) (content : Content)
  /-- Create a file that must not exist. -/
  | create (dir : Path) (name : String) (content : Content)
  /-- Write to a file that exists. -/
  | write (path : Path) (content : Content)
  | link (src dst : Path)
  | rename (src dst : Path)
  | remove (path : Path)
  | removeAll (path : Path)
  | ask (question : Question)

variable {Content Question : Type} {Answer : Question → Type}

/-- What a call gives back. `stat` tells directories, and `readDir` marks them. -/
abbrev FileCall.Reply (Answer : Question → Type) : FileCall Content Question → Type
  | .stat _ => Except FileError Bool
  | .readFile _ => Except FileError Content
  | .readDir _ => Except FileError (List (String × Bool))
  | .createTemp .. => Except FileError String
  | .mkdirAll _ | .create .. | .write .. | .link .. | .rename .. | .remove _ | .removeAll _ =>
      Except FileError Unit
  | .ask question => Answer question

abbrev FileProgram (Content Question : Type) (Answer : Question → Type) (α : Type) :=
  Program (FileCall Content Question) (FileCall.Reply Answer) α

/-- What the calling program does not decide. -/
inductive FileChoice (Answer : Question → Type)
  /-- The system does what the tree allows; a temporary file gets the suffix. -/
  | grant (suffix : String)
  /-- The call fails. `mkdirAll` may have made some of the directories by then. -/
  | refuse (made : Nat)
  | answer (question : Question) (answer : Answer question)

def FileChoice.isRefusal : FileChoice Answer → Bool
  | .refuse _ => true
  | .grant _ | .answer .. => false

/-- What happened to a file, and directories that were made. -/
inductive Touch
  | read (path : Path)
  | create (path : Path)
  | change (path : Path)
  | remove (path : Path)
  | makeDirectory (path : Path)
  deriving DecidableEq, Repr

structure Files (Content : Type) where
  tree : FileTree Content
  /-- Newest first. -/
  touched : List Touch

namespace FileTree

variable (t : FileTree Content)

/-- Why nothing is found. -/
def missing (path : Path) : FileError :=
  if path.inits.all fun upper => (t.readFile upper).isNone then .notExist else .other

/-- What a `stat` that is granted gives. -/
def stat (path : Path) : Except FileError Bool :=
  match t.find path with
  | some node => .ok (node matches .directory)
  | none => .error (t.missing path)

/-- The files at a path and below it. -/
def filesBelow (path : Path) : List Path :=
  (t.entries.map Prod.fst).dedup.filter fun file => path <+: file && (t.readFile file).isSome

/-- The directories that `mkdirAll` has to make. -/
def missingDirectories (path : Path) : List Path :=
  path.inits.filter fun upper => (t.find upper).isNone

end FileTree

namespace Files

def ofTree (tree : FileTree Content) : Files Content := ⟨tree, []⟩

variable (f : Files Content)

def touch (tree : FileTree Content) (touched : List Touch) : Files Content :=
  ⟨tree, touched ++ f.touched⟩

variable [DecidableEq Content]

/-- The directories made before `mkdirAll` fails. -/
def mkdirSome (path : Path) (made : Nat) : Files Content :=
  match f.tree.mkdirAll (path.take made) with
  | some tree => f.touch tree ((f.tree.missingDirectories (path.take made)).map .makeDirectory)
  | none => f

/-- A call that the system grants. -/
def granted (suffix : String) :
    (c : FileCall Content Question) → Option (c.Reply Answer × Files Content)
  | .stat path =>
      match f.tree.find path with
      | some node => some (.ok (node matches .directory), f)
      | none => some (.error (f.tree.missing path), f)
  | .readFile path =>
      match f.tree.find path with
      | some (.file content) => some (.ok content, f.touch f.tree [.read path])
      | some .directory => some (.error .other, f)
      | none => some (.error (f.tree.missing path), f)
  | .readDir path =>
      match f.tree.readDir path with
      | some names =>
          some (.ok ((names.filter Go.isName).map fun name =>
            (name, f.tree.find (path ++ [name]) matches some .directory)), f)
      | none => some (.error (if (f.tree.find path).isSome then .other else f.tree.missing path), f)
  | .mkdirAll path =>
      match f.tree.mkdirAll path with
      | some tree =>
          some (.ok (), f.touch tree ((f.tree.missingDirectories path).map .makeDirectory))
      | none => some (.error .other, f)
  | .createTemp dir base content =>
      let name := base ++ suffix
      if suffix.toList.all Char.isDigit && (f.tree.find (dir ++ [name])).isNone then
        match f.tree.writeFile dir name content with
        | some tree => some (.ok name, f.touch tree [.create (dir ++ [name])])
        | none => some (.error (f.tree.missing dir), f)
      else none
  | .create dir name content =>
      if (f.tree.find (dir ++ [name])).isSome then some (.error .exist, f)
      else
        match f.tree.writeFile dir name content with
        | some tree => some (.ok (), f.touch tree [.create (dir ++ [name])])
        | none => some (.error (f.tree.missing dir), f)
  | .write path content =>
      match f.tree.readFile path, f.tree.writeFile path.dropLast (path.getLastD "") content with
      | some _, some tree => some (.ok (), f.touch tree [.change path])
      | _, _ => some (.error .other, f)
  | .link src dst =>
      match f.tree.readFile src, f.tree.find dst with
      | some content, none =>
          match f.tree.writeFile dst.dropLast (dst.getLastD "") content with
          | some tree => some (.ok (), f.touch tree [.create dst])
          | none => some (.error .other, f)
      | _, _ => some (.error .other, f)
  | .rename src dst =>
      match f.tree.rename src dst with
      | some tree =>
          let moved := f.tree.filesBelow src
          some (.ok (), f.touch tree (moved.map .remove ++
            moved.map fun file => .create (dst ++ file.drop src.length)))
      | none => some (.error .other, f)
  | .remove path =>
      match f.tree.find path, f.tree.remove path with
      | none, _ => some (.error (f.tree.missing path), f)
      | some _, some tree =>
          some (.ok (), f.touch tree ((f.tree.filesBelow path).map .remove))
      | some _, none => some (.error .other, f)
  | .removeAll path =>
      some (.ok (), f.touch (f.tree.removeAll path) ((f.tree.filesBelow path).map .remove))
  | .ask _ => none

/-- A call that fails for a reason outside the tree. -/
def refused (made : Nat) : (c : FileCall Content Question) → Option (c.Reply Answer × Files Content)
  | .stat _ | .readFile _ | .readDir _ | .createTemp .. | .create .. | .write .. | .link ..
  | .rename .. | .remove _ | .removeAll _ => some (.error .other, f)
  | .mkdirAll path => some (.error .other, f.mkdirSome path made)
  | .ask _ => none

variable [DecidableEq Question]

/-- An answer to the question that was asked. -/
def answered (question : Question) (answer : Answer question) :
    (c : FileCall Content Question) → Option (c.Reply Answer × Files Content)
  | .ask asked => if same : question = asked then some (same ▸ answer, f) else none
  | _ => none

def respond (f : Files Content) (c : FileCall Content Question) :
    FileChoice Answer → Option (c.Reply Answer × Files Content)
  | .grant suffix => f.granted suffix c
  | .refuse made => f.refused made c
  | .answer question answer => f.answered question answer c

end Files

/-! ## What a call can do -/

/-- The effect of a call on the tree, and what it touches. -/
def FileCall.Effect [DecidableEq Content] (t t' : FileTree Content) (touched : List Touch) :
    FileCall Content Question → Prop
  | .readFile path => (t.readFile path).isSome ∧ t' = t ∧ touched = [.read path]
  | .mkdirAll path => ∃ made, t.mkdirAll (path.take made) = some t' ∧
      touched = (t.missingDirectories (path.take made)).map .makeDirectory
  | .createTemp dir base content => ∃ suffix, t.find (dir ++ [base ++ suffix]) = none ∧
      t.writeFile dir (base ++ suffix) content = some t' ∧
      touched = [.create (dir ++ [base ++ suffix])]
  | .create dir name content => t.find (dir ++ [name]) = none ∧
      t.writeFile dir name content = some t' ∧ touched = [.create (dir ++ [name])]
  | .write path content => (t.readFile path).isSome ∧
      t.writeFile path.dropLast (path.getLastD "") content = some t' ∧ touched = [.change path]
  | .link src dst => ∃ content, t.readFile src = some content ∧ t.find dst = none ∧
      t.writeFile dst.dropLast (dst.getLastD "") content = some t' ∧ touched = [.create dst]
  | .rename src dst => t.rename src dst = some t' ∧
      touched = (t.filesBelow src).map .remove ++
        (t.filesBelow src).map fun file => .create (dst ++ file.drop src.length)
  | .remove path => (t.find path).isSome ∧ t.remove path = some t' ∧
      touched = (t.filesBelow path).map .remove
  | .removeAll path => t' = t.removeAll path ∧ touched = (t.filesBelow path).map .remove
  | .stat _ | .readDir _ | .ask _ => False

/-- What a reply to a call that writes says about the trees before and after. -/
def FileCall.Outcome [DecidableEq Content] (t t' : FileTree Content) :
    (c : FileCall Content Question) → c.Reply Answer → Prop
  | .createTemp dir base content, .ok name => ∃ suffix, name = base ++ suffix ∧
      t.find (dir ++ [name]) = none ∧ t.writeFile dir name content = some t'
  | .write path content, .ok _ =>
      t.writeFile path.dropLast (path.getLastD "") content = some t'
  | .link src dst, .ok _ => ∃ content, t.readFile src = some content ∧
      t.writeFile dst.dropLast (dst.getLastD "") content = some t'
  | .rename src dst, .ok _ => t.rename src dst = some t'
  | .createTemp .., .error _ | .write .., .error _ | .link .., .error _ | .rename .., .error _ =>
      t' = t
  | _, _ => True

namespace FileCall

/-- The paths whose nodes a call can change. -/
def Changes : FileCall Content Question → Path → Prop
  | .mkdirAll path, q => q <+: path
  | .createTemp dir base _, q => ∃ suffix, q = dir ++ [base ++ suffix]
  | .create dir name _, q => q = dir ++ [name]
  | .write path _, q | .link _ path, q | .remove path, q => q = path
  | .rename src dst, q => src <+: q ∨ dst <+: q
  | .removeAll path, q => path <+: q
  | .stat _, _ | .readFile _, _ | .readDir _, _ | .ask _, _ => False

/-- What a call can touch. -/
def MayTouch : FileCall Content Question → Touch → Prop
  | .readFile path, .read q => q = path
  | .mkdirAll path, .makeDirectory q => q <+: path
  | .createTemp dir base _, .create q => ∃ suffix, q = dir ++ [base ++ suffix]
  | .create dir name _, .create q => q = dir ++ [name]
  | .write path _, .change q => q = path
  | .link _ dst, .create q => q = dst
  | .rename src _, .remove q => src <+: q
  | .rename _ dst, .create q => dst <+: q
  | .remove path, .remove q | .removeAll path, .remove q => path <+: q
  | _, _ => False

/-- A path other than the root ends in a name. -/
theorem path_eq {path : Path} (proper : path ≠ []) :
    path.dropLast ++ [path.getLastD ""] = path := by
  rw [List.getLastD_eq_getLast?, List.getLast?_eq_getLast_of_ne_nil proper, Option.getD_some,
    List.dropLast_append_getLast]

variable [DecidableEq Content] {c : FileCall Content Question} {t t' : FileTree Content}
  {touched : List Touch}

theorem Effect.find (effect : c.Effect t t' touched) {q : Path} (other : ¬ c.Changes q) :
    t'.find q = t.find q := by
  cases c with
  | stat path => exact effect.elim
  | readFile path => rw [effect.2.1]
  | readDir path => exact effect.elim
  | mkdirAll path =>
      rcases effect with ⟨made, created, _⟩
      rw [FileTree.find_mkdirAll created, if_neg]
      exact fun upper => other (upper.trans (List.take_prefix made path))
  | createTemp dir base content =>
      rcases effect with ⟨suffix, _, written, _⟩
      rw [FileTree.find_put written, if_neg]
      exact fun same => other ⟨suffix, same⟩
  | create dir name content =>
      rw [FileTree.find_put effect.2.1, if_neg]
      exact fun same => other same
  | write path content =>
      have proper : path ≠ [] := by
        rintro rfl
        simp [Effect, FileTree.readFile, FileTree.find, Entries.find] at effect
      rw [FileTree.find_put effect.2.1, path_eq proper, if_neg]
      exact fun same => other same
  | link src dst =>
      rcases effect with ⟨content, _, free, written, _⟩
      have proper : dst ≠ [] := by
        rintro rfl
        simp [FileTree.find, Entries.find] at free
      rw [FileTree.find_put written, path_eq proper, if_neg]
      exact fun same => other same
  | rename src dst =>
      rw [FileTree.find_rename effect.1, if_neg fun below => other (.inr below),
        if_neg fun below => other (.inl below)]
  | remove path =>
      by_cases proper : path ≠ []
      · rw [FileTree.find_remove proper effect.2.1, if_neg]
        exact fun same => other same
      · have removed := effect.2.1
        rw [FileTree.remove] at removed
        split at removed
        · contradiction
        · cases removed
          rw [FileTree.removeAll, dif_neg proper]
  | removeAll path =>
      rw [effect.1]
      by_cases proper : path ≠ []
      · rw [FileTree.find_removeAll proper, if_neg]
        exact fun below => other below
      · rw [FileTree.removeAll, dif_neg proper]
  | ask question => exact effect.elim

theorem Effect.touches (effect : c.Effect t t' touched) {touch : Touch}
    (member : touch ∈ touched) : c.MayTouch touch ∧
      ∀ q, touch = .makeDirectory q → t.find q = none := by
  have mem_filesBelow : ∀ {path file : Path}, file ∈ t.filesBelow path → path <+: file := by
    intro path file member
    simp only [FileTree.filesBelow, List.mem_filter, Bool.and_eq_true, decide_eq_true_eq] at member
    exact member.2.1
  cases c with
  | stat path => exact effect.elim
  | readFile path =>
      rw [effect.2.2, List.mem_singleton] at member
      rw [member]
      exact ⟨rfl, fun _ same => nomatch same⟩
  | readDir path => exact effect.elim
  | mkdirAll path =>
      rcases effect with ⟨made, _, rfl⟩
      rcases List.mem_map.mp member with ⟨upper, isMissing, rfl⟩
      simp only [FileTree.missingDirectories, List.mem_filter, List.mem_inits,
        Option.isNone_iff_eq_none] at isMissing
      refine ⟨isMissing.1.trans (List.take_prefix made path), fun q same => ?_⟩
      cases same
      exact isMissing.2
  | createTemp dir base content =>
      rcases effect with ⟨suffix, _, _, rfl⟩
      rw [List.mem_singleton] at member
      rw [member]
      exact ⟨⟨suffix, rfl⟩, fun _ same => nomatch same⟩
  | create dir name content =>
      rw [effect.2.2, List.mem_singleton] at member
      rw [member]
      exact ⟨rfl, fun _ same => nomatch same⟩
  | write path content =>
      rw [effect.2.2, List.mem_singleton] at member
      rw [member]
      exact ⟨rfl, fun _ same => nomatch same⟩
  | link src dst =>
      rcases effect with ⟨content, _, _, _, rfl⟩
      rw [List.mem_singleton] at member
      rw [member]
      exact ⟨rfl, fun _ same => nomatch same⟩
  | rename src dst =>
      rw [effect.2, List.mem_append] at member
      rcases member with removed | created
      · rcases List.mem_map.mp removed with ⟨file, below, rfl⟩
        exact ⟨mem_filesBelow below, fun _ same => nomatch same⟩
      · rcases List.mem_map.mp created with ⟨file, _, rfl⟩
        exact ⟨List.prefix_append _ _, fun _ same => nomatch same⟩
  | remove path =>
      rw [effect.2.2] at member
      rcases List.mem_map.mp member with ⟨file, below, rfl⟩
      exact ⟨mem_filesBelow below, fun _ same => nomatch same⟩
  | removeAll path =>
      rw [effect.2] at member
      rcases List.mem_map.mp member with ⟨file, below, rfl⟩
      exact ⟨mem_filesBelow below, fun _ same => nomatch same⟩
  | ask question => exact effect.elim

end FileCall

namespace Files

variable [DecidableEq Content] {f f' : Files Content}

theorem granted_cases {c : FileCall Content Question} {suffix : String} {reply : c.Reply Answer}
    (granted : f.granted suffix c = some (reply, f')) :
    f' = f ∨ ∃ tree touched, f' = f.touch tree touched ∧ c.Effect f.tree tree touched := by
  cases c with
  | stat path =>
      simp only [Files.granted] at granted
      split at granted
      all_goals
        cases granted
        exact .inl rfl
  | readFile path =>
      simp only [Files.granted] at granted
      split at granted
      · rename_i content found
        cases granted
        exact .inr ⟨_, _, rfl, by simp [FileTree.readFile, found], rfl, rfl⟩
      all_goals
        cases granted
        exact .inl rfl
  | readDir path =>
      simp only [Files.granted] at granted
      split at granted
      all_goals
        cases granted
        exact .inl rfl
  | mkdirAll path =>
      simp only [Files.granted] at granted
      split at granted
      · rename_i tree made
        cases granted
        refine .inr ⟨tree, _, rfl, path.length, ?_, ?_⟩
        · rw [List.take_length, made]
        · rw [List.take_length]
      · cases granted
        exact .inl rfl
  | createTemp dir base content =>
      simp only [Files.granted] at granted
      split at granted
      · rename_i free
        simp only [Bool.and_eq_true, Option.isNone_iff_eq_none] at free
        split at granted
        · rename_i tree written
          cases granted
          exact .inr ⟨tree, _, rfl, suffix, free.2, written, rfl⟩
        · cases granted
          exact .inl rfl
      · contradiction
  | create dir name content =>
      simp only [Files.granted] at granted
      split at granted
      · cases granted
        exact .inl rfl
      · rename_i free
        rw [Option.not_isSome_iff_eq_none] at free
        split at granted
        · rename_i tree written
          cases granted
          exact .inr ⟨tree, _, rfl, free, written, rfl⟩
        · cases granted
          exact .inl rfl
  | write path content =>
      simp only [Files.granted] at granted
      split at granted
      · rename_i old tree isFile written
        cases granted
        exact .inr ⟨tree, _, rfl, by rw [isFile]; rfl, written, rfl⟩
      · cases granted
        exact .inl rfl
  | link src dst =>
      simp only [Files.granted] at granted
      split at granted
      · rename_i content isFile free
        split at granted
        · rename_i tree written
          cases granted
          exact .inr ⟨tree, _, rfl, content, isFile, free, written, rfl⟩
        · cases granted
          exact .inl rfl
      · cases granted
        exact .inl rfl
  | rename src dst =>
      simp only [Files.granted] at granted
      split at granted
      · rename_i tree moved
        cases granted
        exact .inr ⟨tree, _, rfl, moved, rfl⟩
      · cases granted
        exact .inl rfl
  | remove path =>
      simp only [Files.granted] at granted
      split at granted
      · cases granted
        exact .inl rfl
      · rename_i node tree found removed
        cases granted
        exact .inr ⟨tree, _, rfl, by rw [found]; rfl, removed, rfl⟩
      · cases granted
        exact .inl rfl
  | removeAll path =>
      cases granted
      exact .inr ⟨_, _, rfl, rfl, rfl⟩
  | ask question => contradiction

variable [DecidableEq Question]

/-- A call has its effect or leaves everything as it was. -/
theorem respond_cases {c : FileCall Content Question} {choice : FileChoice Answer}
    {reply : c.Reply Answer} (responded : f.respond c choice = some (reply, f')) :
    f' = f ∨ ∃ tree touched, f' = f.touch tree touched ∧ c.Effect f.tree tree touched := by
  cases choice with
  | grant suffix => exact granted_cases responded
  | refuse made =>
      cases c with
      | mkdirAll path =>
          simp only [respond, refused, Option.some.injEq, Prod.mk.injEq] at responded
          rcases responded with ⟨_, rfl⟩
          rw [mkdirSome]
          split
          · rename_i tree made
            exact .inr ⟨tree, _, rfl, _, made, rfl⟩
          · exact .inl rfl
      | ask question => contradiction
      | _ =>
          cases responded
          exact .inl rfl
  | answer question answer =>
      cases c with
      | ask asked =>
          simp only [respond, answered] at responded
          split at responded
          · cases responded
            exact .inl rfl
          · contradiction
      | _ => contradiction

/-- What a call does not change is found as before. -/
theorem find_of_unchanged {c : FileCall Content Question} {choice : FileChoice Answer}
    {reply : c.Reply Answer} (responded : f.respond c choice = some (reply, f')) {q : Path}
    (unchanged : ¬ c.Changes q) : f'.tree.find q = f.tree.find q := by
  rcases respond_cases responded with rfl | ⟨tree, touched, rfl, effect⟩
  · rfl
  · exact effect.find unchanged

theorem respond_outcome {c : FileCall Content Question} {choice : FileChoice Answer}
    {reply : c.Reply Answer} (responded : f.respond c choice = some (reply, f')) :
    c.Outcome f.tree f'.tree reply := by
  cases choice with
  | grant suffix =>
      cases c with
      | createTemp dir base content =>
          simp only [respond, granted] at responded
          split at responded
          · rename_i allowed
            rw [Bool.and_eq_true, Option.isNone_iff_eq_none] at allowed
            split at responded
            · rename_i tree written
              cases responded
              exact ⟨suffix, rfl, allowed.2, written⟩
            · cases responded
              exact rfl
          · contradiction
      | write path content =>
          simp only [respond, granted] at responded
          split at responded
          · rename_i written
            cases responded
            exact written
          · cases responded
            exact rfl
      | link src dst =>
          simp only [respond, granted] at responded
          split at responded
          · rename_i content found _
            split at responded
            · rename_i tree written
              cases responded
              exact ⟨content, found, written⟩
            · cases responded
              exact rfl
          · cases responded
            exact rfl
      | rename src dst =>
          simp only [respond, granted] at responded
          split at responded
          · rename_i tree moved
            cases responded
            exact moved
          · cases responded
            exact rfl
      | _ => exact trivial
  | refuse made =>
      cases c with
      | createTemp | write | link | rename =>
          cases responded
          exact rfl
      | _ => exact trivial
  | answer question answer =>
      cases c with
      | createTemp | write | link | rename => contradiction
      | _ => exact trivial

theorem respond_answer (f : Files Content) (question : Question) (answer : Answer question) :
    f.respond (.ask question : FileCall Content Question) (.answer question answer) =
      some (answer, f) := by
  simp [respond, answered]

/-- The directories that a granted `mkdirAll` makes. -/
theorem respond_mkdirAll (f : Files Content) {path : Path} {tree : FileTree Content}
    (made : f.tree.mkdirAll path = some tree) (suffix : String) :
    f.respond (.mkdirAll path : FileCall Content Question)
        (.grant suffix : FileChoice Answer) =
      some (.ok (), f.touch tree ((f.tree.missingDirectories path).map .makeDirectory)) := by
  simp [respond, granted, made]

/-- There is always a name for another temporary file. -/
theorem exists_digits (tree : FileTree Content) (dir : Path) (base : String) :
    ∃ digits : String, digits.toList.all Char.isDigit = true ∧
      tree.find (dir ++ [base ++ digits]) = none := by
  have bounded : ∀ entries : List (Path × Node Content),
      ∃ bound, ∀ entry ∈ entries, (entry.1.getLastD "").length ≤ bound := by
    intro entries
    induction entries with
    | nil => exact ⟨0, by simp⟩
    | cons first rest induction =>
        rcases induction with ⟨bound, below⟩
        refine ⟨max bound (first.1.getLastD "").length, fun entry member => ?_⟩
        rcases List.mem_cons.mp member with rfl | isRest
        · exact Nat.le_max_right _ _
        · exact Nat.le_trans (below entry isRest) (Nat.le_max_left _ _)
  rcases bounded tree.entries with ⟨bound, below⟩
  -- longer than every name that there is
  let suffix := String.ofList (List.replicate (bound + 1) '0')
  have free : tree.find (dir ++ [base ++ suffix]) = none := by
    cases found : tree.find (dir ++ [base ++ suffix]) with
    | none => rfl
    | some node =>
        rw [FileTree.find, Entries.find, if_neg (by simp)] at found
        have short := below _ (Entries.mem_of_lookup found)
        simp [suffix] at short
        omega
  exact ⟨suffix, by simp [suffix, Char.isDigit], free⟩

theorem exists_respond_createTemp (f : Files Content) {dir : Path}
    (isDirectory : f.tree.find dir = some .directory) (base : String) (content : Content) :
    ∃ suffix name, ∃ tree, f.respond (.createTemp dir base content : FileCall Content Question)
        (.grant suffix : FileChoice Answer) =
      some (.ok name, f.touch tree [.create (dir ++ [name])]) := by
  rcases exists_digits f.tree dir base with ⟨suffix, digits, free⟩
  have noDirectory : f.tree.find (dir ++ [base ++ suffix]) ≠ some .directory := by simp [free]
  rcases FileTree.exists_writeFile isDirectory noDirectory content with ⟨tree, written⟩
  refine ⟨suffix, base ++ suffix, tree, ?_⟩
  simp [respond, granted, free, digits, written]

/-- Some choice other than a refusal is always possible. -/
theorem exists_respond [∀ question, Nonempty (Answer question)] (f : Files Content)
    (c : FileCall Content Question) :
    ∃ choice : FileChoice Answer, ∃ reply next,
      f.respond c choice = some (reply, next) ∧ choice.isRefusal = false := by
  cases c with
  | ask question =>
      have answer := Classical.arbitrary (Answer question)
      exact ⟨.answer question answer, answer, f, f.respond_answer question answer, rfl⟩
  | createTemp dir base content =>
      by_cases isDirectory : f.tree.find dir = some .directory
      · have creates : ∃ suffix name, ∃ tree, f.respond
            (.createTemp dir base content : FileCall Content Question)
            (.grant suffix : FileChoice Answer) =
              some (.ok name, f.touch tree [.create (dir ++ [name])]) :=
          f.exists_respond_createTemp isDirectory base content
        rcases creates with ⟨suffix, name, tree, created⟩
        exact ⟨.grant suffix, .ok name, _, created, rfl⟩
      · have nothing : f.tree.find (dir ++ [base ++ ""]) = none := by
          cases found : f.tree.find (dir ++ [base ++ ""]) with
          | none => rfl
          | some node => exact absurd (FileTree.parent found) isDirectory
        have unwritten : f.tree.writeFile dir (base ++ "") content = none := by
          rw [FileTree.writeFile, FileTree.put, dif_neg]
          exact fun allowed => isDirectory allowed.1
        refine ⟨.grant "", .error (f.tree.missing dir), f, ?_, rfl⟩
        simp only [respond, granted, nothing, unwritten]
        rfl
  | removeAll path => exact ⟨.grant "", _, _, rfl, rfl⟩
  | _ =>
      refine ⟨.grant "", ?_⟩
      simp only [respond, granted]
      split
      all_goals first
        | exact ⟨_, _, rfl, rfl⟩
        | split
          all_goals exact ⟨_, _, rfl, rfl⟩

/-- What was touched stays recorded. -/
theorem touched_mono {c : FileCall Content Question} {choice : FileChoice Answer}
    {reply : c.Reply Answer} (responded : f.respond c choice = some (reply, f')) {touch : Touch}
    (member : touch ∈ f.touched) : touch ∈ f'.touched := by
  rcases respond_cases responded with rfl | ⟨tree, touched, rfl, _⟩
  · exact member
  · exact List.mem_append_right _ member

end Files

/-! ## Calls on the files of one directory -/

/-- The path that is written, removed or made. -/
def Touch.written : Touch → Option Path
  | .read _ => none
  | .create path | .change path | .remove path | .makeDirectory path => some path

/-- The path of a directory that was made or a file that was created. -/
def Touch.made : Touch → Option Path
  | .create path | .makeDirectory path => some path
  | .read _ | .change _ | .remove _ => none

/-- Whatever is written, removed or made lies strictly below a directory. -/
def WrittenBelow (root : Path) (touched : List Touch) : Prop :=
  ∀ touch ∈ touched, ∀ path, touch.written = some path → root <+: path ∧ path ≠ root

/-- A call that only writes files of the directory, or makes it. -/
def FileCall.InDirectory (dir : Path) : FileCall Content Question → Prop
  | .mkdirAll path => path = dir
  | .createTemp place _ _ | .create place _ _ => place = dir
  | .write path _ | .link _ path => ∃ name, path = dir ++ [name]
  | .remove path => ∃ name, path = dir ++ [name]
  | .rename src dst => (∃ name, src = dir ++ [name]) ∧ ∃ name, dst = dir ++ [name]
  | .removeAll _ => False
  | .stat _ | .readFile _ | .readDir _ | .ask _ => True

/-- A call that changes nothing. -/
def FileCall.Reads : FileCall Content Question → Prop
  | .stat _ | .readFile _ | .readDir _ | .ask _ => True
  | _ => False

/-- A call about files of the directory, or the directory itself. -/
def FileCall.UsesIn (dir : Path) : FileCall Content Question → Prop
  | .mkdirAll path | .readDir path => path = dir
  | .createTemp place _ _ | .create place _ _ => place = dir
  | .stat path | .readFile path | .write path _ | .remove path => ∃ name, path = dir ++ [name]
  | .rename src dst => (∃ name, src = dir ++ [name]) ∧ ∃ name, dst = dir ++ [name]
  | .link .. | .removeAll _ | .ask _ => False

namespace FileCall

theorem Reads.inDirectory {c : FileCall Content Question} (reads : c.Reads) (dir : Path) :
    c.InDirectory dir := by
  cases c with
  | stat path | readFile path | readDir path | ask question => exact trivial
  | _ => exact reads.elim

theorem UsesIn.inDirectory {c : FileCall Content Question} {dir : Path} (uses : c.UsesIn dir) :
    c.InDirectory dir := by
  cases c with
  | stat path | readFile path | readDir path => exact trivial
  | link src dst | removeAll path | ask question => exact uses.elim
  | _ => exact uses

theorem UsesIn.ne_ask {c : FileCall Content Question} {dir : Path} (uses : c.UsesIn dir)
    (question : Question) : c ≠ .ask question := by
  rintro rfl
  exact uses

/-- What lies above something that exists exists. -/
theorem find_isSome_of_prefix {t : FileTree Content} {upper lower : Path} (above : upper <+: lower)
    (found : (t.find lower).isSome) : (t.find upper).isSome := by
  rcases above with ⟨rest, rfl⟩
  by_cases same : rest = []
  · simpa [same] using found
  · rcases Option.isSome_iff_exists.mp found with ⟨node, found⟩
    rw [FileTree.ancestor same found]
    rfl

variable [DecidableEq Content] {c : FileCall Content Question} {t t' : FileTree Content}
  {touched : List Touch} {dir : Path}

/-- A file stands in the way of everything below it. -/
theorem InDirectory.blocked (inside : c.InDirectory dir) (effect : c.Effect t t' touched)
    {q : Path} (upper : q <+: dir) {content : Content} (isFile : t.find q = some (.file content)) :
    t'.find q = t.find q ∧ ∀ touch ∈ touched, touch.written = none := by
  have nothing : ∀ rest node, rest ≠ [] → t.find (q ++ rest) ≠ some node := by
    intro rest node proper found
    have isDirectory := FileTree.ancestor proper found
    rw [isFile] at isDirectory
    cases isDirectory
  rcases upper with ⟨rest, rfl⟩
  have notDirectory : t.find (q ++ rest) ≠ some .directory := by
    intro isDirectory
    by_cases here : rest = []
    · rw [here, List.append_nil, isFile] at isDirectory
      cases isDirectory
    · exact nothing rest _ here isDirectory
  have noFile : ∀ name, t.find (q ++ rest ++ [name]) = none := by
    intro name
    cases found : t.find (q ++ rest ++ [name]) with
    | none => rfl
    | some node =>
        rw [List.append_assoc] at found
        exact absurd found (nothing _ _ (by simp))
  cases c with
  | stat path => exact effect.elim
  | readFile path =>
      rw [effect.2.1, effect.2.2]
      refine ⟨rfl, fun touch member => ?_⟩
      rw [List.mem_singleton.mp member]
      rfl
  | readDir path => exact effect.elim
  | mkdirAll path =>
      rcases effect with ⟨made, created, rfl⟩
      have apart : ¬ q <+: path.take made := fun above =>
        FileTree.mkdirAll_free created above isFile
      rw [FileTree.find_mkdirAll created, if_neg apart]
      refine ⟨rfl, fun touch member => ?_⟩
      rcases List.mem_map.mp member with ⟨missing, isMissing, rfl⟩
      simp only [FileTree.missingDirectories, List.mem_filter, List.mem_inits,
        Option.isNone_iff_eq_none] at isMissing
      have whole : q <+: path := inside ▸ List.prefix_append q rest
      have above : path.take made <+: q :=
        (List.prefix_or_prefix_of_prefix whole (List.take_prefix made path)).resolve_left apart
      have found := find_isSome_of_prefix (t := t) (isMissing.1.trans above) (by rw [isFile]; rfl)
      rw [isMissing.2] at found
      contradiction
  | createTemp place base content =>
      rcases effect with ⟨suffix, _, written, _⟩
      have isDirectory := (FileTree.put_allowed written).1
      rw [inside] at isDirectory
      exact absurd isDirectory notDirectory
  | create place name content =>
      have isDirectory := (FileTree.put_allowed effect.2.1).1
      rw [inside] at isDirectory
      exact absurd isDirectory notDirectory
  | write path content =>
      rcases inside with ⟨name, rfl⟩
      have found := effect.1
      rw [FileTree.readFile, noFile name] at found
      contradiction
  | link src dst =>
      rcases inside with ⟨name, rfl⟩
      rcases effect with ⟨_, _, _, written, _⟩
      have isDirectory := (FileTree.put_allowed written).1
      rw [List.dropLast_concat] at isDirectory
      exact absurd isDirectory notDirectory
  | rename src dst =>
      rcases inside with ⟨⟨name, rfl⟩, _⟩
      exact absurd (noFile name) (FileTree.rename_source effect.1)
  | remove path =>
      rcases inside with ⟨name, rfl⟩
      have found := effect.1
      rw [noFile name] at found
      contradiction
  | removeAll path => exact inside.elim
  | ask question => exact effect.elim

theorem below_concat {root : Path} (upper : root <+: dir) (name : String) (rest : Path) :
    root <+: dir ++ [name] ++ rest ∧ dir ++ [name] ++ rest ≠ root := by
  rcases upper with ⟨middle, rfl⟩
  refine ⟨⟨middle ++ [name] ++ rest, by simp⟩, fun same => ?_⟩
  have length := congrArg List.length same
  simp only [List.length_append, List.length_cons, List.length_nil] at length
  omega

/-- With the root in place, everything written lies below it. -/
theorem InDirectory.below (inside : c.InDirectory dir) (effect : c.Effect t t' touched)
    {root : Path} (upper : root <+: dir) (isDirectory : t.find root = some .directory) :
    t'.find root = some .directory ∧ WrittenBelow root touched := by
  have below := below_concat upper
  have kept : c.Changes root → ∃ path, c = .mkdirAll path := by
    intro changes
    cases c with
    | mkdirAll path => exact ⟨path, rfl⟩
    | createTemp place base content =>
        rcases changes with ⟨suffix, same⟩
        rw [inside] at same
        exact absurd same.symm (by simpa using (below (base ++ suffix) []).2)
    | create place name content =>
        rw [Changes, inside] at changes
        exact absurd changes.symm (by simpa using (below name []).2)
    | write path content | link src path | remove path =>
        rcases inside with ⟨name, rfl⟩
        exact absurd (Eq.symm changes) (by simpa using (below name []).2)
    | rename src dst =>
        rcases inside with ⟨⟨name, rfl⟩, ⟨name', rfl⟩⟩
        rcases changes with ⟨rest, same⟩ | ⟨rest, same⟩
        · exact absurd same (below name rest).2
        · exact absurd same (below name' rest).2
    | removeAll path => exact inside.elim
    | stat path | readFile path | readDir path | ask question => exact changes.elim
  constructor
  · by_cases changes : c.Changes root
    · rcases kept changes with ⟨path, rfl⟩
      rcases effect with ⟨made, created, _⟩
      exact FileTree.mkdirAll_keeps created isDirectory
    · rw [effect.find changes, isDirectory]
  · intro touch member path written
    rcases effect.touches member with ⟨may, missing⟩
    cases c <;> cases touch <;> try exact may.elim
    case readFile.read => contradiction
    case mkdirAll.makeDirectory place made =>
      cases written
      rw [show place = dir from inside] at may
      have found : t.find path = none := missing path rfl
      have different : ¬ path <+: root := fun above => by
        have isFound := find_isSome_of_prefix (t := t) above (by rw [isDirectory]; rfl)
        rw [found] at isFound
        contradiction
      exact ⟨(List.prefix_or_prefix_of_prefix upper may).resolve_right different,
        fun same => different (same ▸ List.prefix_refl _)⟩
    case createTemp.create place base content made =>
      cases written
      rcases may with ⟨suffix, rfl⟩
      rw [show place = dir from inside]
      simpa using below (base ++ suffix) []
    case create.create place name content made =>
      cases written
      rw [show path = place ++ [name] from may, show place = dir from inside]
      simpa using below name []
    case write.change place content changed =>
      cases written
      rcases inside with ⟨name, rfl⟩
      rw [show path = dir ++ [name] from may]
      simpa using below name []
    case link.create src dst made =>
      cases written
      rcases inside with ⟨name, rfl⟩
      rw [show path = dir ++ [name] from may]
      simpa using below name []
    case rename.create src dst made =>
      cases written
      rcases inside with ⟨_, name, rfl⟩
      rcases may with ⟨rest, rfl⟩
      exact below name rest
    case rename.remove src dst removed =>
      cases written
      rcases inside with ⟨⟨name, rfl⟩, _⟩
      rcases may with ⟨rest, rfl⟩
      exact below name rest
    case remove.remove place removed =>
      cases written
      rcases inside with ⟨name, rfl⟩
      rcases may with ⟨rest, rfl⟩
      exact below name rest
    case removeAll.remove place removed => exact inside.elim

end FileCall

/-! ## Refusals -/

/-- Something was refused among the choices. -/
def Refused (choices : List (FileChoice Answer)) : Prop :=
  ∃ choice ∈ choices, choice.isRefusal = true

theorem Refused.append_left {before : List (FileChoice Answer)} (refused : Refused before)
    (after : List (FileChoice Answer)) : Refused (before ++ after) := by
  rcases refused with ⟨choice, member, isRefusal⟩
  exact ⟨choice, List.mem_append_left _ member, isRefusal⟩

theorem Refused.append_right {after : List (FileChoice Answer)} (refused : Refused after)
    (before : List (FileChoice Answer)) : Refused (before ++ after) := by
  rcases refused with ⟨choice, member, isRefusal⟩
  exact ⟨choice, List.mem_append_right _ member, isRefusal⟩

theorem countP_eq_zero_of_not_refused {choices : List (FileChoice Answer)}
    (clear : ¬ Refused choices) : choices.countP FileChoice.isRefusal = 0 :=
  List.countP_eq_zero.mpr fun choice member isRefusal => clear ⟨choice, member, isRefusal⟩

section Runs

variable {program : FileProgram Content Question Answer α} {dirs : Path → Prop} {post : α → Prop}

/-- A program whose calls are about files of some directories. -/
def Uses (dirs : Path → Prop) (post : α → Prop) (program : FileProgram Content Question Answer α) :
    Prop :=
  program.Calls (fun c => ∃ dir, dirs dir ∧ c.UsesIn dir) post

/-- A program that only reads, and only files of some directories. -/
def Reads (dirs : Path → Prop) (post : α → Prop) (program : FileProgram Content Question Answer α) :
    Prop :=
  program.Calls (fun c => c.Reads ∧ ∃ dir, dirs dir ∧ c.UsesIn dir) post

/-- A program that only writes files of some directories. -/
def WritesIn (dirs : Path → Prop) (post : α → Prop) (program : FileProgram Content Question Answer α) :
    Prop :=
  program.Calls (fun c => ∃ dir, dirs dir ∧ c.InDirectory dir) post

theorem Reads.uses (reads : Reads dirs post program) : Uses dirs post program :=
  reads.mono (fun _ allowed => allowed.2) fun _ holds => holds

theorem Reads.onlyReads (reads : Reads dirs post program) : program.Calls FileCall.Reads post :=
  reads.mono (fun _ allowed => allowed.1) fun _ holds => holds

theorem Uses.writesIn (uses : Uses dirs post program) : WritesIn dirs post program :=
  uses.mono (fun _ ⟨dir, isDir, inside⟩ => ⟨dir, isDir, inside.inDirectory⟩) fun _ holds => holds

/-- What only reads writes in every directory. -/
theorem Reads.writesIn {others : Path → Prop} {dir : Path} (isDir : others dir)
    (reads : Reads dirs post program) : WritesIn others post program :=
  reads.mono (fun _ allowed => ⟨dir, isDir, allowed.1.inDirectory dir⟩) fun _ holds => holds

variable [DecidableEq Content] [DecidableEq Question] {f f' : Files Content}
  {choices : List (FileChoice Answer)} {result : α}

/-- With the root in place, a program that writes in directories at or below it writes
below it. -/
theorem WritesIn.below {root : Path} (writes : WritesIn dirs post program)
    (upper : ∀ dir, dirs dir → root <+: dir)
    (ran : program.run Files.respond f choices = some (result, f'))
    (isDirectory : f.tree.find root = some .directory) (before : WrittenBelow root f.touched) :
    f'.tree.find root = some .directory ∧ WrittenBelow root f'.touched := by
  apply (Program.Calls.invariant writes
    (fun f => f.tree.find root = some .directory ∧ WrittenBelow root f.touched) ?_ ran
    ⟨isDirectory, before⟩).1
  rintro state c choice reply next ⟨dir, isDir, inside⟩ ⟨isDirectory, written⟩ responded
  rcases Files.respond_cases responded with rfl | ⟨tree, touched, rfl, effect⟩
  · exact ⟨isDirectory, written⟩
  · rcases inside.below effect (upper dir isDir) isDirectory with ⟨stays, new⟩
    refine ⟨stays, fun touch member => ?_⟩
    rcases List.mem_append.mp member with isNew | old
    · exact new touch isNew
    · exact written touch old

/-- With a file in the way, a program that writes in directories at or below it writes
nothing. -/
theorem WritesIn.blocked {q : Path} (writes : WritesIn dirs post program)
    (upper : ∀ dir, dirs dir → q <+: dir)
    (ran : program.run Files.respond f choices = some (result, f')) {content : Content}
    (isFile : f.tree.find q = some (.file content)) {root : Path}
    (before : WrittenBelow root f.touched) :
    f'.tree.find q = some (.file content) ∧ WrittenBelow root f'.touched := by
  apply (Program.Calls.invariant writes
    (fun f => f.tree.find q = some (.file content) ∧ WrittenBelow root f.touched) ?_ ran
    ⟨isFile, before⟩).1
  rintro state c choice reply next ⟨dir, isDir, inside⟩ ⟨isFile, written⟩ responded
  rcases Files.respond_cases responded with rfl | ⟨tree, touched, rfl, effect⟩
  · exact ⟨isFile, written⟩
  · rcases inside.blocked effect (upper dir isDir) isFile with ⟨stays, nothing⟩
    refine ⟨stays.trans isFile, fun touch member path isPath => ?_⟩
    rcases List.mem_append.mp member with isNew | old
    · rw [nothing touch isNew] at isPath
      contradiction
    · exact written touch old path isPath

/-- Every program can come to an end without anything being refused. -/
theorem exists_unrefusedRun [∀ question, Nonempty (Answer question)]
    (program : FileProgram Content Question Answer α) (f : Files Content) :
    ∃ choices result f', program.run Files.respond f choices = some (result, f') ∧
      ¬ Refused choices := by
  rcases program.exists_run f (FileChoice.isRefusal · = false) Files.exists_respond with
    ⟨choices, result, f', ran, granted⟩
  refine ⟨choices, result, f', ran, fun ⟨choice, member, isRefusal⟩ => ?_⟩
  rw [granted choice member] at isRefusal
  contradiction

theorem exists_fileRun [∀ question, Nonempty (Answer question)]
    (program : FileProgram Content Question Answer α) (f : Files Content) :
    ∃ choices result f', program.run Files.respond f choices = some (result, f') := by
  rcases exists_unrefusedRun program f with ⟨choices, result, f', ran, _⟩
  exact ⟨choices, result, f', ran⟩

/-- A program that changes nothing and gives what it reads off the tree, or gives up
because something was refused. -/
def ReadsAs (program : FileProgram Content Question Answer α) (stored : FileTree Content → α)
    (gaveUp : α → Prop) : Prop :=
  ∀ ⦃f f' choices value⦄, program.run Files.respond f choices = some (value, f') →
    f'.tree = f.tree ∧ (value = stored f.tree ∨ gaveUp value ∧ Refused choices)

namespace ReadsAs

variable {stored : FileTree Content → α} {gaveUp : α → Prop}

theorem pure (value : α) :
    ReadsAs (.done value : FileProgram Content Question Answer α) (fun _ => value) gaveUp := by
  intro f f' choices result ran
  rcases Program.run_done.mp ran with ⟨_, rfl, rfl⟩
  exact ⟨rfl, .inl rfl⟩

theorem congr (reads : ReadsAs program stored gaveUp) {other : FileTree Content → α}
    (same : ∀ tree, stored tree = other tree) : ReadsAs program other gaveUp :=
  funext same ▸ reads

/-- The rule for a sequence, whose rest gives up after a first part that has. -/
theorem bind (reads : ReadsAs program stored gaveUp) {next : α → FileProgram Content Question Answer β}
    (others : α → FileTree Content → β) {gaveUp' : β → Prop}
    (rest : ∀ value, ReadsAs (next value) (others value) gaveUp')
    (stops : ∀ value, gaveUp value → ∀ tree, gaveUp' (others value tree)) :
    ReadsAs (program >>= next) (fun tree => others (stored tree) tree) gaveUp' := by
  intro f f' choices result ran
  rcases Program.run_bind.mp ran with ⟨before, after, value, middle, rfl, first, second⟩
  rcases reads first with ⟨sameTree, what⟩
  rcases rest value second with ⟨sameTree', what'⟩
  refine ⟨sameTree'.trans sameTree, ?_⟩
  rw [sameTree] at what'
  rcases what' with rfl | ⟨gives, refused⟩
  · rcases what with rfl | ⟨gave, refused⟩
    · exact .inl rfl
    · exact .inr ⟨stops value gave f.tree, refused.append_left after⟩
  · exact .inr ⟨gives, refused.append_right before⟩

theorem stat (path : Path) :
    ReadsAs (.call (.stat path) .done : FileProgram Content Question Answer (Except FileError Bool))
      (·.stat path) (· = .error .other) := by
  intro f f' choices value ran
  rcases Program.run_call.mp ran with ⟨choice, rest, reply, middle, rfl, responded, ran⟩
  rcases Program.run_done.mp ran with ⟨_, rfl, rfl⟩
  cases choice with
  | answer question answer => contradiction
  | refuse made =>
      cases responded
      exact ⟨rfl, .inr ⟨rfl, _, List.mem_cons_self, rfl⟩⟩
  | grant suffix =>
      simp only [Files.respond, Files.granted] at responded
      split at responded
      all_goals
        rename_i found
        cases responded
        exact ⟨rfl, .inl (by simp only [FileTree.stat, found])⟩

end ReadsAs

/-- A program that only reads leaves the tree as it was. -/
theorem tree_of_reads (reads : program.Calls FileCall.Reads post)
    (ran : program.run Files.respond f choices = some (result, f')) : f'.tree = f.tree := by
  apply (reads.invariant (fun next => next.tree = f.tree) ?_ ran rfl).1
  intro state c choice reply next onlyReads same responded
  rcases Files.respond_cases responded with rfl | ⟨tree, touched, rfl, effect⟩
  · exact same
  · cases c with
    | readFile path => exact effect.2.1.trans same
    | stat path | readDir path | ask question => exact effect.elim
    | _ => exact onlyReads.elim

/-- What was touched before a run stays recorded. -/
theorem touched_of_run (ran : program.run Files.respond f choices = some (result, f'))
    {touch : Touch} (member : touch ∈ f.touched) : touch ∈ f'.touched := by
  have anything : program.Calls (fun _ => True) fun _ => True := by
    clear ran
    induction program with
    | done value => trivial
    | call c next induction => exact ⟨trivial, induction⟩
  exact (anything.invariant (fun f => touch ∈ f.touched)
    (fun _ _ _ _ _ _ member responded => Files.touched_mono responded member) ran member).1

/-- After the reply to its first call as well. -/
theorem exists_fileRun_call [∀ question, Nonempty (Answer question)]
    {c : FileCall Content Question} {next : c.Reply Answer → FileProgram Content Question Answer α}
    {choice : FileChoice Answer} {reply : c.Reply Answer}
    (responded : f.respond c choice = some (reply, f')) :
    ∃ choices result last, (Program.call c next).run Files.respond f choices = some (result, last) ∧
      ∀ touch ∈ f'.touched, touch ∈ last.touched := by
  rcases exists_fileRun (next reply) f' with ⟨choices, result, last, ran⟩
  exact ⟨choice :: choices, result, last,
    Program.run_call.mpr ⟨_, _, reply, f', rfl, responded, ran⟩,
    fun touch member => touched_of_run ran member⟩

/-- What is answered was asked. -/
theorem asked_of_run {kind : FileCall Content Question → Prop} (calls : program.Calls kind post)
    (ran : program.run Files.respond f choices = some (result, f')) {question : Question}
    {answer : Answer question} (answered : .answer question answer ∈ choices) :
    kind (.ask question) := by
  induction program generalizing f choices with
  | done value =>
      rcases Program.run_done.mp ran with ⟨rfl, _, _⟩
      exact nomatch answered
  | call c next induction =>
      rcases Program.run_call.mp ran with ⟨choice, rest, reply, middle, rfl, responded, ran⟩
      rcases List.mem_cons.mp answered with rfl | later
      · cases c with
        | ask asked =>
            simp only [Files.respond, Files.answered] at responded
            split at responded
            · rename_i same
              rw [same]
              exact calls.1
            · contradiction
        | _ => contradiction
      · exact induction reply (calls.2 reply) ran later

/-- A question is answered, and nothing else happens. -/
theorem run_ask {question : Question}
    {next : Answer question → FileProgram Content Question Answer α} :
    (Program.call (.ask question) next).run Files.respond f choices = some (result, f') ↔
      ∃ answer rest, choices = .answer question answer :: rest ∧
        (next answer).run Files.respond f rest = some (result, f') := by
  rw [Program.run_call]
  constructor
  · rintro ⟨choice, rest, reply, middle, rfl, responded, ran⟩
    cases choice with
    | grant suffix => contradiction
    | refuse made => contradiction
    | answer asked answer =>
        simp only [Files.respond, Files.answered] at responded
        split at responded
        · rename_i same
          cases same
          cases responded
          exact ⟨answer, rest, rfl, ran⟩
        · contradiction
  · rintro ⟨answer, rest, rfl, ran⟩
    exact ⟨_, rest, answer, f, rfl, Files.respond_answer f question answer, ran⟩

end Runs

end Kiyomi
