import Mathlib.Data.List.Dedup
import Mathlib.Data.List.Induction
import Mathlib.Data.List.Sort
import Mathlib.Data.String.Basic

namespace Kiyomi

/-! # File trees

The part of a file system that a program works on: directories and files by path, with
the operations that succeed. An operation that the system would refuse has no result. -/

/-- The names on the way from the root of the file system. -/
abbrev Path := List String

inductive Node (Content : Type)
  | directory
  | file (content : Content)
  deriving DecidableEq, Repr

namespace Entries

variable {Content : Type}

/-- The node at a path; the root is always there. -/
def find (entries : List (Path × Node Content)) (path : Path) : Option (Node Content) :=
  if path = [] then some .directory else entries.lookup path

/-- Whatever exists lies in a directory. -/
def Closed (find : Path → Option (Node Content)) : Prop :=
  ∀ path name node, find (path ++ [name]) = some node → find path = some .directory

/-- The check of `Closed` on the entries themselves. -/
def closed [DecidableEq Content] (entries : List (Path × Node Content)) : Bool :=
  entries.all fun entry => entry.1 = [] || decide (find entries entry.1.dropLast = some .directory)

theorem mem_of_lookup {entries : List (Path × Node Content)} {path : Path} {node : Node Content}
    (found : entries.lookup path = some node) : (path, node) ∈ entries := by
  rcases List.lookup_eq_some_iff.mp found with ⟨before, after, parts, _⟩
  simp [parts]

theorem closed_of_check [DecidableEq Content] {entries : List (Path × Node Content)}
    (checked : closed entries = true) : Closed (find entries) := by
  intro path name node found
  rw [find, if_neg (by simp)] at found
  rw [closed, List.all_eq_true] at checked
  simpa using checked _ (mem_of_lookup found)

theorem lookup_filter (keep : Path → Bool) (entries : List (Path × Node Content)) (q : Path) :
    (entries.filter fun entry => keep entry.1).lookup q =
      if keep q then entries.lookup q else none := by
  induction entries with
  | nil => simp
  | cons entry entries induction =>
      rcases entry with ⟨path, node⟩
      rw [List.filter_cons]
      by_cases same : q = path
      · subst same
        by_cases kept : keep q <;> simp [kept, induction]
      · have other : (q == path) = false := by simpa using same
        by_cases kept : keep path <;> simp [kept, List.lookup_cons, other, induction]

/-- All entries but those at a path and below it. -/
def without (path : Path) (entries : List (Path × Node Content)) : List (Path × Node Content) :=
  entries.filter fun entry => decide ¬ path <+: entry.1

theorem find_without {path : Path} (proper : path ≠ []) (entries : List (Path × Node Content))
    (q : Path) : find (without path entries) q = if path <+: q then none else find entries q := by
  by_cases root : q = []
  · subst root
    simp [find, proper]
  · rw [find, if_neg root, find, if_neg root, without,
      lookup_filter (fun q => decide ¬ path <+: q)]
    by_cases below : path <+: q <;> simp [below]

theorem find_cons {path : Path} (proper : path ≠ []) (node : Node Content)
    (entries : List (Path × Node Content)) (q : Path) :
    find ((path, node) :: entries) q = if q = path then some node else find entries q := by
  by_cases root : q = []
  · subst root
    simp [find, Ne.symm proper]
  · rw [find, if_neg root, find, if_neg root, List.lookup_cons]
    by_cases same : q = path
    · simp [same]
    · have other : (q == path) = false := by simpa using same
      simp [same, other]

/-- The entries at a path and below it, put at and below another. -/
def relocated (src dst : Path) (entries : List (Path × Node Content)) :
    List (Path × Node Content) :=
  entries.filterMap fun entry =>
    if src <+: entry.1 then some (dst ++ entry.1.drop src.length, entry.2) else none

theorem lookup_relocated (src dst : Path) (entries : List (Path × Node Content)) (q : Path) :
    (relocated src dst entries).lookup q =
      if dst <+: q then entries.lookup (src ++ q.drop dst.length) else none := by
  induction entries with
  | nil => simp [relocated]
  | cons entry entries induction =>
      rcases entry with ⟨path, node⟩
      rw [relocated, List.filterMap_cons]
      by_cases inside : src <+: path
      · rcases inside with ⟨rest, rfl⟩
        simp only [List.prefix_append, if_true, List.drop_left, List.lookup_cons]
        change (match q == dst ++ rest with
          | true => some node
          | false => (relocated src dst entries).lookup q) = _
        by_cases same : q = dst ++ rest
        · subst same
          simp
        · have other : (q == dst ++ rest) = false := by simpa using same
          rw [other, induction]
          by_cases below : dst <+: q
          · rcases below with ⟨suffix, rfl⟩
            have different : (src ++ suffix == src ++ rest) = false := by
              simpa using fun equal => same (by rw [equal])
            simp [different]
          · simp [below]
      · simp only [inside, if_false]
        change (relocated src dst entries).lookup q = _
        rw [induction]
        by_cases below : dst <+: q
        · have different : (src ++ q.drop dst.length == path) = false := by
            simpa using fun equal => inside ⟨_, equal⟩
          simp [below, List.lookup_cons, different]
        · simp [below]

/-- Move what is at a path and below it. -/
def renamed (src dst : Path) (entries : List (Path × Node Content)) :
    List (Path × Node Content) :=
  relocated src dst entries ++ without dst (without src entries)

theorem find_renamed {src dst : Path} (srcProper : src ≠ []) (dstProper : dst ≠ [])
    (entries : List (Path × Node Content)) (q : Path) :
    find (renamed src dst entries) q =
      if dst <+: q then find entries (src ++ q.drop dst.length)
      else if src <+: q then none else find entries q := by
  by_cases root : q = []
  · subst root
    simp [find, srcProper, dstProper]
  · have rest := find_without dstProper (without src entries) q
    rw [find_without srcProper] at rest
    rw [find, if_neg root] at rest
    rw [find, if_neg root, renamed, List.lookup_append, lookup_relocated, rest]
    by_cases below : dst <+: q
    · simp [below, find, srcProper]
    · simp [below]

/-- The names in a directory, in order. -/
def names (path : Path) (entries : List (Path × Node Content)) : List String :=
  ((entries.filterMap fun entry =>
    if entry.1.dropLast = path then entry.1.getLast? else none).dedup).insertionSort (· ≤ ·)

theorem mem_names {path : Path} {entries : List (Path × Node Content)} {name : String} :
    name ∈ names path entries ↔ ∃ node, find entries (path ++ [name]) = some node := by
  rw [names, List.mem_insertionSort, List.mem_dedup, List.mem_filterMap, find, if_neg (by simp)]
  constructor
  · intro listed
    rcases listed with ⟨entry, member, last⟩
    split at last
    · rename_i parent
      have whole : entry.1 = path ++ [name] := by
        rw [← parent]
        exact (List.dropLast_append_getLast? name last).symm
      cases found : entries.lookup (path ++ [name]) with
      | some node => exact ⟨node, rfl⟩
      | none =>
          have absent := List.lookup_eq_none_iff.mp found entry member
          simp [whole] at absent
    · contradiction
  · intro found
    rcases found with ⟨node, found⟩
    exact ⟨_, mem_of_lookup found, by simp⟩

theorem names_sorted (path : Path) (entries : List (Path × Node Content)) :
    (names path entries).Pairwise (· < ·) := by
  have ordered := List.pairwise_insertionSort (· ≤ ·) (entries.filterMap fun entry =>
    if entry.1.dropLast = path then entry.1.getLast? else none).dedup
  have distinct : (names path entries).Nodup :=
    (List.perm_insertionSort _ _).nodup_iff.mpr (List.nodup_dedup _)
  exact (ordered.and distinct).imp fun both => lt_of_le_of_ne both.1 both.2

theorem Closed.without {entries : List (Path × Node Content)} (closed : Closed (find entries))
    {path : Path} (proper : path ≠ []) : Closed (find (without path entries)) := by
  intro q name node found
  rw [find_without proper] at found ⊢
  split at found
  · contradiction
  · rename_i outside
    rw [if_neg fun below => outside (below.trans (List.prefix_append q [name]))]
    exact closed q name node found

/-- A node can take the place of anything but a directory. -/
theorem Closed.cons {entries : List (Path × Node Content)} (closed : Closed (find entries))
    {dir : Path} {name : String} {node : Node Content} (inside : find entries dir = some .directory)
    (free : find entries (dir ++ [name]) ≠ some .directory) :
    Closed (find ((dir ++ [name], node) :: entries)) := by
  intro q below found exists_
  rw [find_cons (by simp)] at exists_ ⊢
  have other : q ≠ dir ++ [name] := by
    intro same
    subst same
    rw [if_neg (by simp)] at exists_
    exact free (closed _ _ _ exists_)
  rw [if_neg other]
  split at exists_
  · rename_i same
    rw [(List.append_inj' same rfl).1]
    exact inside
  · exact closed _ _ _ exists_

theorem Closed.renamed {entries : List (Path × Node Content)} (closed : Closed (find entries))
    {src dir : Path} {name : String} (srcProper : src ≠ [])
    (inside : find entries dir = some .directory) (apart : ¬ src <+: dir) :
    Closed (find (renamed src (dir ++ [name]) entries)) := by
  intro q below found exists_
  rw [find_renamed srcProper (by simp)] at exists_ ⊢
  by_cases here : dir ++ [name] <+: q
  · rcases here with ⟨rest, rfl⟩
    rw [List.append_assoc, if_pos (List.prefix_append _ _), List.drop_left,
      ← List.append_assoc] at exists_
    rw [if_pos (List.prefix_append _ _), List.drop_left]
    exact closed _ _ _ exists_
  · rw [if_neg here]
    by_cases top : dir ++ [name] <+: q ++ [below]
    · have same : dir ++ [name] = q ++ [below] := by
        rcases List.prefix_concat_iff.mp top with same | before
        · simpa using same
        · exact absurd before here
      have parent : dir = q := (List.append_inj' same rfl).1
      rw [← parent, if_neg apart]
      exact inside
    · rw [if_neg top] at exists_
      split at exists_
      · contradiction
      · rename_i outside
        rw [if_neg fun inner => outside (inner.trans (List.prefix_append q [below]))]
        exact closed _ _ _ exists_

end Entries

/-- A tree in which everything lies in a directory. -/
structure FileTree (Content : Type) where
  entries : List (Path × Node Content)
  closed : Entries.Closed (Entries.find entries)

namespace FileTree

variable {Content : Type} {t t' : FileTree Content}

def find (t : FileTree Content) (path : Path) : Option (Node Content) :=
  Entries.find t.entries path

/-- A tree written down as a list. -/
def ofEntries [DecidableEq Content] (entries : List (Path × Node Content))
    (checked : Entries.closed entries = true) : FileTree Content :=
  ⟨entries, Entries.closed_of_check checked⟩

theorem parent {path : Path} {name : String} {node : Node Content}
    (found : t.find (path ++ [name]) = some node) : t.find path = some .directory :=
  t.closed path name node found

/-- What lies below something that exists makes it a directory. -/
theorem ancestor {path rest : Path} {node : Node Content} (proper : rest ≠ [])
    (found : t.find (path ++ rest) = some node) : t.find path = some .directory := by
  induction rest using List.reverseRecOn generalizing node with
  | nil => contradiction
  | append_singleton rest name induction =>
      rw [← List.append_assoc] at found
      have upper := parent found
      by_cases top : rest = []
      · simpa [top] using upper
      · exact induction top upper

/-- Everything on the way to a directory is one. -/
theorem directory_above {path upper : Path} (above : upper <+: path)
    (isDirectory : t.find path = some .directory) : t.find upper = some .directory := by
  rcases above with ⟨rest, rfl⟩
  by_cases last : rest = []
  · simpa [last] using isDirectory
  · exact ancestor last isDirectory

/-- What a tree has at a path and below it. -/
def subtree (t : FileTree Content) (path rest : Path) : Option (Node Content) :=
  t.find (path ++ rest)

theorem subtree_append (t : FileTree Content) (path upper : Path) :
    t.subtree (path ++ upper) = fun rest => t.subtree path (upper ++ rest) := by
  funext rest
  rw [subtree, subtree, List.append_assoc]

/-! ## Reading -/

/-- `os.ReadDir`, the names only. -/
def readDir (t : FileTree Content) (path : Path) : Option (List String) :=
  if t.find path matches some .directory then some (Entries.names path t.entries) else none

theorem mem_readDir {path : Path} {names : List String} (listed : t.readDir path = some names)
    {name : String} : name ∈ names ↔ ∃ node, t.find (path ++ [name]) = some node := by
  rw [readDir] at listed
  split at listed
  · cases listed
    exact Entries.mem_names
  · contradiction

theorem readDir_isSome {path : Path} :
    (t.readDir path).isSome ↔ t.find path = some .directory := by
  rw [readDir]
  split <;> simp_all

/-- `os.ReadFile`. -/
def readFile (t : FileTree Content) (path : Path) : Option Content :=
  match t.find path with
  | some (.file content) => some content
  | _ => none

theorem readFile_eq_some {path : Path} {content : Content} :
    t.readFile path = some content ↔ t.find path = some (.file content) := by
  rw [readFile]
  split <;> simp_all

/-! ## Writing -/

/-- `os.RemoveAll`; the root stays. -/
def removeAll (t : FileTree Content) (path : Path) : FileTree Content :=
  if proper : path ≠ [] then ⟨Entries.without path t.entries, t.closed.without proper⟩ else t

theorem find_removeAll {path : Path} (proper : path ≠ []) (q : Path) :
    (t.removeAll path).find q = if path <+: q then none else t.find q := by
  rw [removeAll, dif_pos proper]
  exact Entries.find_without proper t.entries q

theorem find_removeAll_of_none {path q : Path} (absent : t.find q = none) :
    (t.removeAll path).find q = none := by
  by_cases proper : path ≠ []
  · rw [find_removeAll proper, absent, ite_self]
  · rwa [removeAll, dif_neg proper]

/-- `os.Remove` of something that may be missing. -/
def remove (t : FileTree Content) (path : Path) : Option (FileTree Content) :=
  match t.find path, Entries.names path t.entries with
  | some .directory, _ :: _ => none
  | _, _ => some (t.removeAll path)

theorem find_remove {path : Path} (proper : path ≠ []) (removed : t.remove path = some t')
    (q : Path) : t'.find q = if q = path then none else t.find q := by
  rw [remove] at removed
  split at removed
  · contradiction
  · rename_i blocked
    cases removed
    rw [find_removeAll proper]
    by_cases below : path <+: q
    · rcases below with ⟨rest, rfl⟩
      rcases rest with _ | ⟨name, rest⟩
      · simp
      · rw [if_pos (List.prefix_append _ _), if_neg (by simp)]
        cases found : t.find (path ++ name :: rest) with
        | none => rfl
        | some node =>
            -- something lies below, so the directory is not empty
            have isDirectory : t.find path = some .directory := ancestor (by simp) found
            have child : ∃ node, t.find (path ++ [name]) = some node := by
              by_cases last : rest = []
              · exact ⟨node, last ▸ found⟩
              · have whole : path ++ name :: rest = (path ++ [name]) ++ rest := by simp
                rw [whole] at found
                exact ⟨_, ancestor last found⟩
            have listed : name ∈ Entries.names path t.entries := Entries.mem_names.mpr child
            cases content : Entries.names path t.entries with
            | nil => simp [content] at listed
            | cons first others => exact (blocked first others isDirectory content).elim
    · have other : q ≠ path := fun same => below (same ▸ List.prefix_refl _)
      rw [if_neg below, if_neg other]

variable [DecidableEq Content]

/-- Put a node at a name in a directory, in place of anything but a directory. -/
def put (t : FileTree Content) (dir : Path) (name : String) (node : Node Content) :
    Option (FileTree Content) :=
  if allowed : Entries.find t.entries dir = some .directory ∧
      Entries.find t.entries (dir ++ [name]) ≠ some .directory then
    some ⟨(dir ++ [name], node) :: t.entries, t.closed.cons allowed.1 allowed.2⟩
  else none

/-- Write a file as a whole. -/
def writeFile (t : FileTree Content) (dir : Path) (name : String) (content : Content) :
    Option (FileTree Content) :=
  t.put dir name (.file content)

theorem find_put {dir : Path} {name : String} {node : Node Content}
    (written : t.put dir name node = some t') (q : Path) :
    t'.find q = if q = dir ++ [name] then some node else t.find q := by
  rw [put] at written
  split at written
  · cases written
    exact Entries.find_cons (by simp) node t.entries q
  · contradiction

theorem put_allowed {dir : Path} {name : String} {node : Node Content}
    (written : t.put dir name node = some t') :
    t.find dir = some .directory ∧ t.find (dir ++ [name]) ≠ some .directory := by
  rw [put] at written
  split at written
  · assumption
  · contradiction

theorem exists_writeFile {dir : Path} {name : String} (isDirectory : t.find dir = some .directory)
    (noDirectory : t.find (dir ++ [name]) ≠ some .directory) (content : Content) :
    ∃ t', t.writeFile dir name content = some t' := by
  rw [writeFile, put, dif_pos ⟨isDirectory, noDirectory⟩]
  exact ⟨_, rfl⟩

/-- Create the missing directories on the way down from `made`. -/
def mkdirBelow (t : FileTree Content) (made : Path) : List String → Option (FileTree Content)
  | [] => some t
  | name :: rest =>
      match t.find (made ++ [name]) with
      | some .directory => t.mkdirBelow (made ++ [name]) rest
      | some (.file _) => none
      | none =>
          match t.put made name .directory with
          | some t => t.mkdirBelow (made ++ [name]) rest
          | none => none

/-- `os.MkdirAll`. -/
def mkdirAll (t : FileTree Content) (path : Path) : Option (FileTree Content) :=
  t.mkdirBelow [] path

theorem find_mkdirBelow {path : List String} {made : Path}
    (inside : t.find made = some .directory) (created : t.mkdirBelow made path = some t')
    (q : Path) :
    t'.find q = if q <+: made ++ path then some .directory else t.find q := by
  induction path generalizing t made with
  | nil =>
      cases created
      rw [List.append_nil]
      split
      · rename_i upper
        rcases upper with ⟨rest, rfl⟩
        cases rest with
        | nil => simpa using inside
        | cons name rest => exact ancestor (by simp) inside
      · rfl
  | cons name rest induction =>
      have whole : made ++ name :: rest = (made ++ [name]) ++ rest := by simp
      rw [mkdirBelow] at created
      rw [whole]
      split at created
      · rename_i found
        exact induction found created
      · contradiction
      · split at created
        · rename_i middle written
          have found := find_put written (made ++ [name])
          rw [if_pos rfl] at found
          rw [induction found created]
          split
          · rfl
          · rename_i outside
            rw [find_put written, if_neg]
            intro same
            exact outside (same ▸ List.prefix_append _ _)
        · contradiction

theorem find_mkdirAll {path : Path} (created : t.mkdirAll path = some t') (q : Path) :
    t'.find q = if q <+: path then some .directory else t.find q :=
  find_mkdirBelow rfl created q

theorem mkdirBelow_free {path : List String} {made : Path}
    (created : t.mkdirBelow made path = some t') {q : Path} (proper : q ≠ [])
    (upper : q <+: path) {content : Content} :
    t.find (made ++ q) ≠ some (.file content) := by
  induction path generalizing t made q with
  | nil => exact absurd (List.prefix_nil.mp upper) proper
  | cons name rest induction =>
      rcases q with _ | ⟨first, q⟩
      · contradiction
      · rcases List.cons_prefix_cons.mp upper with ⟨rfl, inner⟩
        have whole : made ++ first :: q = (made ++ [first]) ++ q := by simp
        rw [mkdirBelow] at created
        rw [whole]
        split at created
        · rename_i found
          by_cases last : q = []
          · simp [last, found]
          · exact induction created last inner
        · contradiction
        · rename_i absent
          intro found
          by_cases last : q = []
          · simp [last, absent] at found
          · rw [ancestor last found] at absent
            contradiction

/-- Directories are only made where nothing stands in the way. -/
theorem mkdirAll_free {path : Path} (created : t.mkdirAll path = some t') {q : Path}
    (upper : q <+: path) {content : Content} : t.find q ≠ some (.file content) := by
  by_cases root : q = []
  · simp [root, find, Entries.find]
  · exact mkdirBelow_free created root upper

theorem mkdirBelow_isSome {path : List String} {made : Path}
    (inside : t.find made = some .directory)
    (free : ∀ q, q <+: path → ∀ content, t.find (made ++ q) ≠ some (.file content)) :
    (t.mkdirBelow made path).isSome := by
  induction path generalizing t made with
  | nil => rfl
  | cons name rest induction =>
      have below : ∀ q, q <+: rest → ∀ content,
          t.find (made ++ [name] ++ q) ≠ some (.file content) := by
        intro q upper content
        have whole : made ++ [name] ++ q = made ++ name :: q := by simp
        rw [whole]
        exact free (name :: q) (List.cons_prefix_cons.mpr ⟨rfl, upper⟩) content
      rw [mkdirBelow]
      split
      · rename_i found
        exact induction found below
      · rename_i content found
        exact absurd found (free [name] (by simp) content)
      · rename_i absent
        have made' : ∃ t', t.put made name .directory = some t' := by
          rw [put, dif_pos ⟨inside, by rw [← FileTree.find, absent]; simp⟩]
          exact ⟨_, rfl⟩
        rcases made' with ⟨t', written⟩
        rw [written]
        refine induction (by rw [find_put written, if_pos rfl]) fun q upper content => ?_
        rw [find_put written]
        split
        · simp
        · exact below q upper content

/-- Directories can be made where no file stands in the way. -/
theorem mkdirAll_isSome {path : Path}
    (free : ∀ q, q <+: path → ∀ content, t.find q ≠ some (.file content)) :
    (t.mkdirAll path).isSome :=
  mkdirBelow_isSome rfl free

/-- Making a directory that is there changes nothing. -/
theorem mkdirAll_of_directory {path : Path} (isDirectory : t.find path = some .directory) :
    ∃ t', t.mkdirAll path = some t' ∧ ∀ q, t'.find q = t.find q := by
  have free : ∀ upper, upper <+: path → ∀ held, t.find upper ≠ some (.file held) := by
    intro upper above held found
    rw [directory_above above isDirectory] at found
    cases found
  rcases Option.isSome_iff_exists.mp (mkdirAll_isSome free) with ⟨t', created⟩
  refine ⟨t', created, fun q => ?_⟩
  rw [find_mkdirAll created]
  split
  · rename_i above
    exact (directory_above above isDirectory).symm
  · rfl

/-- What exists stays when directories are made. -/
theorem mkdirAll_keeps {path : Path} (created : t.mkdirAll path = some t') {q : Path}
    {node : Node Content} (found : t.find q = some node) : t'.find q = some node := by
  rw [find_mkdirAll created]
  split
  · rename_i upper
    cases node with
    | directory => rfl
    | file content => exact absurd found (mkdirAll_free created upper)
  · exact found

/-- Whether something can be moved to a place: only a file can replace something, and
only another file. -/
def fits : Option (Node Content) → Option (Node Content) → Bool
  | some _, none | some (.file _), some (.file _) => true
  | _, _ => false

/-- `os.Rename`. -/
def rename (t : FileTree Content) (src dst : Path) : Option (FileTree Content) :=
  if allowed : src ≠ [] ∧ dst ≠ [] ∧ ¬ src <+: dst ∧
      Entries.find t.entries dst.dropLast = some .directory ∧
      fits (t.find src) (t.find dst) = true then
    some ⟨Entries.renamed src dst t.entries, by
      have whole := List.dropLast_append_getLast allowed.2.1
      have apart : ¬ src <+: dst.dropLast := fun inside =>
        allowed.2.2.1 (inside.trans (List.dropLast_prefix dst))
      have closed : Entries.Closed (Entries.find (Entries.renamed src
          (dst.dropLast ++ [dst.getLast allowed.2.1]) t.entries)) :=
        t.closed.renamed allowed.1 allowed.2.2.2.1 apart
      rwa [whole] at closed⟩
  else none

/-- A file can be moved to another name in its directory, unless a directory has that name. -/
theorem exists_rename {dir : Path} {name other : String} {content : Content}
    (isFile : t.find (dir ++ [name]) = some (.file content)) (different : name ≠ other)
    (noDirectory : t.find (dir ++ [other]) ≠ some .directory) :
    ∃ t', t.rename (dir ++ [name]) (dir ++ [other]) = some t' := by
  have apart : ¬ dir ++ [name] <+: dir ++ [other] := by
    intro above
    have same := above.eq_of_length (by simp)
    exact different (by simpa using same)
  have replaces : fits (t.find (dir ++ [name])) (t.find (dir ++ [other])) = true := by
    rw [isFile]
    cases found : t.find (dir ++ [other]) with
    | none => rfl
    | some node =>
        cases node with
        | file held => rfl
        | directory => exact absurd found noDirectory
  rw [rename, dif_pos]
  · exact ⟨_, rfl⟩
  · refine ⟨by simp, by simp, apart, ?_, replaces⟩
    rw [List.dropLast_concat]
    exact parent isFile

theorem find_rename {src dst : Path} (moved : t.rename src dst = some t') (q : Path) :
    t'.find q =
      if dst <+: q then t.find (src ++ q.drop dst.length)
      else if src <+: q then none else t.find q := by
  rw [rename] at moved
  split at moved
  · rename_i allowed
    cases moved
    exact Entries.find_renamed allowed.1 allowed.2.1 t.entries q
  · contradiction

theorem rename_source {src dst : Path} (moved : t.rename src dst = some t') :
    t.find src ≠ none := by
  rw [rename] at moved
  split at moved
  · rename_i allowed
    intro absent
    simp [absent, fits] at allowed
  · contradiction

/-- A file that is moved is at its new place, and nothing else changes. -/
theorem find_rename_file {src dst : Path} (moved : t.rename src dst = some t') {content : Content}
    (isFile : t.find src = some (.file content)) (q : Path) :
    t'.find q =
      if q = dst then some (.file content) else if q = src then none else t.find q := by
  have noFileBelow : ∀ {path rest : Path}, (∃ held, t.find path = some (.file held)) → rest ≠ [] →
      t.find (path ++ rest) = none := by
    intro path rest file proper
    rcases file with ⟨held, file⟩
    cases found : t.find (path ++ rest) with
    | none => rfl
    | some node =>
        rw [ancestor proper found] at file
        cases file
  have fits : t.find dst = none ∨ ∃ held, t.find dst = some (.file held) := by
    rw [rename] at moved
    split at moved
    · rename_i allowed
      have fits := allowed.2.2.2.2
      rw [isFile] at fits
      cases found : t.find dst with
      | none => exact .inl rfl
      | some node =>
          cases node with
          | directory => simp [found, FileTree.fits] at fits
          | file held => exact .inr ⟨held, rfl⟩
    · contradiction
  rw [find_rename moved]
  by_cases below : dst <+: q
  · rcases below with ⟨rest, rfl⟩
    rw [if_pos (List.prefix_append _ _), List.drop_left]
    by_cases top : rest = []
    · simp [top, isFile]
    · have other : dst ++ rest ≠ dst := fun same => top (List.append_right_eq_self.mp same)
      rw [noFileBelow ⟨content, isFile⟩ top, if_neg other]
      split
      · rfl
      · symm
        rcases fits with absent | file
        · cases found : t.find (dst ++ rest) with
          | none => rfl
          | some node =>
              rw [ancestor top found] at absent
              contradiction
        · exact noFileBelow file top
  · have other : q ≠ dst := fun same => below (same ▸ List.prefix_refl _)
    rw [if_neg below, if_neg other]
    by_cases source : src <+: q
    · rcases source with ⟨rest, rfl⟩
      rw [if_pos (List.prefix_append _ _)]
      by_cases top : rest = []
      · simp [top]
      · rw [noFileBelow ⟨content, isFile⟩ top, ite_self]
    · have different : q ≠ src := fun same => source (same ▸ List.prefix_refl _)
      rw [if_neg source, if_neg different]

/-- What is moved stays what it was. -/
theorem subtree_rename {src dst : Path} (moved : t.rename src dst = some t') :
    t'.subtree dst = t.subtree src := by
  funext rest
  rw [subtree, find_rename moved, if_pos (List.prefix_append _ _), List.drop_left, subtree]

end FileTree

end Kiyomi
