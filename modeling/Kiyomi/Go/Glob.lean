import Kiyomi.Go.Filepath

namespace Kiyomi.Go

/-! # Patterns of the `path/filepath` package

`filepath.Match` and `filepath.Glob`, for patterns that are absolute paths. A pattern that is
malformed has no result. -/

/-- `getEsc`: a character of a class. -/
def getEsc : List Char → Option (Char × List Char)
  | '\\' :: c :: next :: chunk => some (c, next :: chunk)
  | '\\' :: _ | '-' :: _ | ']' :: _ => none
  | c :: next :: chunk => some (c, next :: chunk)
  | _ => none

/-- The ranges of a character class: whether one has the character, and what follows. -/
def matchRanges (r : Option Char) (started matched : Bool) :
    Nat → List Char → Option (Bool × List Char)
  | 0, _ => none
  | fuel + 1, chunk =>
      if started && chunk.head? == some ']' then some (matched, chunk.tail)
      else
        match getEsc chunk with
        | none => none
        | some (lo, chunk) =>
            if chunk.head? == some '-' then
              match getEsc chunk.tail with
              | none => none
              | some (hi, chunk) =>
                  matchRanges r true (matched || r.any fun r => lo ≤ r && r ≤ hi) fuel chunk
            else matchRanges r true (matched || r == some lo) fuel chunk

/-- Take a character off; without a rest the match has failed. -/
def takeChar (accepts : Char → Bool) : Option (List Char) → Option (List Char)
  | some (c :: s) => if accepts c then some s else none
  | _ => none

/-- `matchChunk`. After a failed match the chunk is only checked. -/
def matchChunk : Nat → List Char → Option (List Char) → Option (Option (List Char))
  | _, [], s => some s
  | 0, _ :: _, _ => none
  | fuel + 1, '[' :: chunk, s =>
      let negated := chunk.head? == some '^'
      let chunk := if negated then chunk.tail else chunk
      match matchRanges (s.bind List.head?) false false (chunk.length + 1) chunk with
      | none => none
      | some (matched, chunk) => matchChunk fuel chunk (takeChar (fun _ => matched != negated) s)
  | fuel + 1, '?' :: chunk, s => matchChunk fuel chunk (takeChar (· != '/') s)
  | fuel + 1, '\\' :: chunk, s =>
      match chunk with
      | [] => none
      | c :: chunk => matchChunk fuel chunk (takeChar (· == c) s)
  | fuel + 1, c :: chunk, s => matchChunk fuel chunk (takeChar (· == c) s)

/-- `scanChunk` without the stars in front: the next chunk and what follows it. -/
def scanChunk (inRange : Bool) : List Char → List Char × List Char
  | [] => ([], [])
  | ['\\'] => (['\\'], [])
  | '\\' :: c :: pattern =>
      let (chunk, rest) := scanChunk inRange pattern
      ('\\' :: c :: chunk, rest)
  | c :: pattern =>
      if c == '*' && !inRange then ([], c :: pattern)
      else
        let (chunk, rest) := scanChunk ((c == '[' || inRange) && c != ']') pattern
        (c :: chunk, rest)

/-- A match of the chunk further on in the name. -/
def skipTo (chunk : List Char) (last : Bool) : List Char → Option (List Char)
  | [] => none
  | c :: name =>
      if c == '/' then none
      else
        match matchChunk chunk.length chunk (some name) with
        | some (some rest) =>
            if last && !rest.isEmpty then skipTo chunk last name else some rest
        | _ => skipTo chunk last name

def wellFormed : Nat → List Char → Bool
  | _, [] => true
  | 0, _ :: _ => false
  | fuel + 1, pattern =>
      let (chunk, rest) := scanChunk false (pattern.dropWhile (· == '*'))
      (matchChunk chunk.length chunk none).isSome && wellFormed fuel rest

def matchFrom : Nat → List Char → List Char → Option Bool
  | _, [], name => some name.isEmpty
  | 0, _ :: _, _ => none
  | fuel + 1, pattern, name =>
      let star := pattern.head? == some '*'
      let (chunk, rest) := scanChunk false (pattern.dropWhile (· == '*'))
      if star && chunk.isEmpty then some !name.contains '/'
      else
        match matchChunk chunk.length chunk (some name) with
        | none => none
        | some here =>
            let here := here.filter fun name => name.isEmpty || !rest.isEmpty
            let later := if star then skipTo chunk rest.isEmpty name else none
            match here <|> later with
            | some name => matchFrom fuel rest name
            | none => if wellFormed rest.length rest then some false else none

/-- `filepath.Match`. -/
def matchName (pattern name : String) : Option Bool :=
  matchFrom pattern.length pattern.toList name.toList

example : matchName "*.jpg" "001.jpg" = some true := by decide +kernel

example : matchName "[a-c]*?d" "bxyd" = some true := by decide +kernel

example : matchName "a[b" "a" = none := by decide +kernel

/-! ## A star before a text -/

/-- A character that stands for itself. -/
def Literal (c : Char) : Prop := c ≠ '*' ∧ c ≠ '?' ∧ c ≠ '[' ∧ c ≠ '\\'

theorem matchChunk_fail {chunk : List Char} (literal : ∀ c ∈ chunk, Literal c) {fuel : Nat}
    (enough : chunk.length ≤ fuel) : matchChunk fuel chunk none = some none := by
  induction chunk generalizing fuel with
  | nil => rw [matchChunk]
  | cons c chunk induction =>
      rw [List.forall_mem_cons] at literal
      rcases literal with ⟨⟨_, noMark, noClass, noEscape⟩, others⟩
      cases fuel with
      | zero => simp at enough
      | succ fuel =>
          have rest : chunk.length ≤ fuel := by simpa using enough
          rw [matchChunk]
          · exact induction others rest
          · exact noClass
          · exact noMark
          · exact noEscape

/-- A text without special characters matches itself. -/
theorem matchChunk_literal {chunk : List Char} (literal : ∀ c ∈ chunk, Literal c) {fuel : Nat}
    (enough : chunk.length ≤ fuel) (s : List Char) :
    matchChunk fuel chunk (some s) =
      some (if chunk <+: s then some (s.drop chunk.length) else none) := by
  induction chunk generalizing fuel s with
  | nil => simp [matchChunk]
  | cons c chunk induction =>
      have all := literal
      rw [List.forall_mem_cons] at literal
      rcases literal with ⟨⟨_, noMark, noClass, noEscape⟩, others⟩
      cases fuel with
      | zero => simp at enough
      | succ fuel =>
          have rest : chunk.length ≤ fuel := by simpa using enough
          rw [matchChunk]
          · cases s with
            | nil => simp [takeChar, matchChunk_fail others rest]
            | cons d s =>
                by_cases same : d = c
                · simp [takeChar, same, induction others rest]
                · simp [takeChar, same, matchChunk_fail others rest, Ne.symm same]
          · exact noClass
          · exact noMark
          · exact noEscape

theorem scanChunk_literal {chunk : List Char} (literal : ∀ c ∈ chunk, Literal c) :
    scanChunk false chunk = (chunk, []) := by
  induction chunk with
  | nil => rw [scanChunk]
  | cons c chunk induction =>
      rw [List.forall_mem_cons] at literal
      rcases literal with ⟨⟨noStar, _, noClass, noEscape⟩, others⟩
      have notIn : (c == '[' && c != ']') = false := by simp [noClass]
      rw [scanChunk]
      · simp [noStar, notIn, induction others]
      · exact fun isEscape _ => absurd isEscape noEscape
      · exact fun _ _ isEscape _ => absurd isEscape noEscape

/-- The text further on, at the end of the name. -/
theorem skipTo_literal {chunk : List Char} (literal : ∀ c ∈ chunk, Literal c) {name : List Char}
    (noSlash : '/' ∉ name) :
    skipTo chunk true name = if chunk <:+ name ∧ chunk ≠ name then some [] else none := by
  induction name with
  | nil => simp [skipTo]
  | cons c name induction =>
      have later : '/' ∉ name := fun member => noSlash (List.mem_cons_of_mem _ member)
      have here : c ≠ '/' := fun same => noSlash (same ▸ List.mem_cons_self)
      have inside : (chunk <:+ c :: name ∧ chunk ≠ c :: name) ↔ chunk <:+ name := by
        rw [List.suffix_cons_iff]
        constructor
        · rintro ⟨whole | suffix, other⟩
          · exact absurd whole other
          · exact suffix
        · intro suffix
          refine ⟨.inr suffix, fun whole => ?_⟩
          have short := suffix.length_le
          simp [whole] at short
      have goesOn (other : chunk ≠ name) : skipTo chunk true name =
          if chunk <:+ name then some [] else none := by
        rw [induction later]
        simp [other]
      rw [skipTo, if_neg (by simpa using here), matchChunk_literal literal le_rfl]
      simp only [inside]
      by_cases isPrefix : chunk <+: name
      · rcases isPrefix with ⟨rest, rfl⟩
        cases rest with
        | nil => simp
        | cons d rest => simpa using goesOn (by simp)
      · simpa [isPrefix] using goesOn fun same => isPrefix (same ▸ List.prefix_refl _)

/-- `*` before a text without special characters stands for what the name begins with. -/
theorem matchName_star {suffix name : String} (literal : ∀ c ∈ suffix.toList, Literal c)
    (proper : suffix ≠ "") (noSlash : '/' ∉ name.toList) :
    matchName ("*" ++ suffix) name = some (suffix.toList.isSuffixOf name.toList) := by
  have pattern : ("*" ++ suffix).toList = '*' :: suffix.toList := by simp
  have trimmed : suffix.toList.dropWhile (· == '*') = suffix.toList := by
    cases text : suffix.toList with
    | nil => rfl
    | cons c rest =>
        have first := (literal c (by simp [text])).1
        simp [first]
  have notEmpty : suffix.toList.isEmpty = false := by
    simpa using proper
  rw [matchName, pattern]
  cases size : ("*" ++ suffix).length with
  | zero => simp at size
  | succ fuel =>
      rw [matchFrom]
      · have atOnce : Option.filter (fun name : List Char => name.isEmpty || !true)
            (if suffix.toList <+: name.toList then some (name.toList.drop suffix.toList.length)
              else none) = if suffix.toList = name.toList then some [] else none := by
          by_cases isPrefix : suffix.toList <+: name.toList
          · rcases isPrefix with ⟨rest, whole⟩
            rw [← whole]
            cases rest <;> simp
          · have other : suffix.toList ≠ name.toList := fun same =>
              isPrefix (same ▸ List.prefix_refl _)
            simp [isPrefix, other]
        simp only [List.head?_cons, List.dropWhile_cons, beq_self_eq_true, if_true, trimmed,
          scanChunk_literal literal, notEmpty, Bool.and_false, matchChunk_literal literal le_rfl,
          atOnce, List.isEmpty_nil, skipTo_literal literal noSlash]
        by_cases whole : suffix.toList = name.toList
        · have ends : name.toList.isSuffixOf name.toList = true :=
            List.isSuffixOf_iff_suffix.mpr (List.suffix_refl _)
          simp [whole, matchFrom, ends]
        · by_cases isSuffix : suffix.toList <:+ name.toList
          · have ends := List.isSuffixOf_iff_suffix.mpr isSuffix
            simp [whole, isSuffix, matchFrom, ends]
          · have ends : suffix.toList.isSuffixOf name.toList = false := by
              rw [← Bool.not_eq_true, List.isSuffixOf_iff_suffix]
              exact isSuffix
            simp [whole, isSuffix, wellFormed, ends]
      · simp

/-! ## Paths as patterns -/

def hasMeta (name : String) : Bool := name.toList.any fun c => "*?[\\".toList.contains c

/-- The text of an absolute path. -/
def pathText (path : Path) : String :=
  if path = [] then "/" else String.join (path.map ("/" ++ ·))

section

variable {Content : Type} (t : FileTree Content)

/-- The names of one directory that match a pattern without separators. -/
def globIn (pattern : String) (dir : Path) : Option (List Path) := do
  let names ← ((t.readDir dir).getD []).mapM fun name => do
    some (name, ← matchName pattern name)
  some ((names.filter (·.2)).map fun matched => dir ++ [matched.1])

/-- `filepath.Glob` of a pattern, given as its names from the last to the first. -/
def globUp : List String → Option (List Path)
  | [] => some [[]]
  | file :: above =>
      let pattern := (file :: above).reverse
      if (matchName (pathText pattern) "").isNone then none
      else if !pattern.any hasMeta then some (if (t.find pattern).isSome then [pattern] else [])
      else if !above.any hasMeta then globIn t file above.reverse
      else do
        let dirs ← globUp above
        let found ← dirs.mapM (globIn t file)
        some found.flatten

/-- `filepath.Glob`. -/
def glob (pattern : Path) : Option (List Path) := globUp t pattern.reverse

/-- The directories that the upper names of a pattern lead to. -/
def globDirs (dir : Path) : Option (List Path) :=
  if dir.any hasMeta then glob t dir else some [dir]

variable {t}

theorem mem_mapM {f : α → Option β} {xs : List α} {ys : List β} (mapped : xs.mapM f = some ys)
    {y : β} : y ∈ ys ↔ ∃ x ∈ xs, f x = some y := by
  induction xs generalizing ys with
  | nil =>
      cases mapped
      simp
  | cons x xs induction =>
      rw [List.mapM_cons] at mapped
      rcases Option.bind_eq_some_iff.mp mapped with ⟨first, here, rest⟩
      rcases Option.bind_eq_some_iff.mp rest with ⟨others, later, whole⟩
      cases whole
      simp [induction later, here, eq_comm]

theorem exists_of_mapM {f : α → Option β} {xs : List α} {ys : List β} (mapped : xs.mapM f = some ys)
    {x : α} (member : x ∈ xs) : ∃ y, f x = some y := by
  induction xs generalizing ys with
  | nil => exact nomatch member
  | cons first xs induction =>
      rw [List.mapM_cons] at mapped
      rcases Option.bind_eq_some_iff.mp mapped with ⟨value, here, rest⟩
      rcases Option.bind_eq_some_iff.mp rest with ⟨others, later, _⟩
      rcases List.mem_cons.mp member with rfl | member
      · exact ⟨value, here⟩
      · exact induction later member

theorem mem_listed {dir : Path} {name : String} :
    name ∈ (t.readDir dir).getD [] ↔ t.find (dir ++ [name]) ≠ none := by
  cases listed : t.readDir dir with
  | some names => simp [FileTree.mem_readDir listed, Option.ne_none_iff_exists']
  | none =>
      refine iff_of_false (by simp) fun found => ?_
      rcases Option.ne_none_iff_exists'.mp found with ⟨node, found⟩
      have isDirectory := FileTree.readDir_isSome.mpr (FileTree.parent found)
      rw [listed] at isDirectory
      contradiction

/-- Something in the directory matches the pattern for names. -/
def MatchesIn (t : FileTree Content) (pattern : String) (dir path : Path) : Prop :=
  ∃ name, path = dir ++ [name] ∧ t.find path ≠ none ∧ matchName pattern name = some true

theorem mem_globIn {pattern : String} {dir path : Path} {found : List Path}
    (globbed : globIn t pattern dir = some found) : path ∈ found ↔ MatchesIn t pattern dir path := by
  rcases Option.bind_eq_some_iff.mp globbed with ⟨names, mapped, result⟩
  cases result
  simp only [List.mem_map, List.mem_filter]
  constructor
  · rintro ⟨⟨name, matched⟩, ⟨member, isMatch⟩, rfl⟩
    rcases (mem_mapM mapped).mp member with ⟨entry, listed, tried⟩
    rcases Option.bind_eq_some_iff.mp tried with ⟨result, matched, same⟩
    cases same
    exact ⟨name, rfl, mem_listed.mp listed, by rw [matched]; exact congrArg some isMatch⟩
  · rintro ⟨name, rfl, present, matched⟩
    refine ⟨(name, true), ⟨(mem_mapM mapped).mpr ⟨name, mem_listed.mpr present, ?_⟩, rfl⟩, rfl⟩
    rw [matched]
    rfl

/-- A pattern for names is tried in each directory that the upper names lead to. -/
theorem mem_globUp {file : String} {above : List String} {path : Path} {found : List Path}
    (isPattern : (file :: above).any hasMeta = true)
    (globbed : globUp t (file :: above) = some found) :
    ∃ dirs, (if above.any hasMeta then globUp t above else some [above.reverse]) = some dirs ∧
      (path ∈ found ↔ ∃ upper ∈ dirs, MatchesIn t file upper path) := by
  have whole : (file :: above).reverse.any hasMeta = true := by rwa [List.any_reverse]
  rw [globUp] at globbed
  simp only [whole, Bool.not_true, Bool.false_eq_true, if_false] at globbed
  split at globbed
  · contradiction
  cases upper : above.any hasMeta with
  | false =>
      simp only [upper, Bool.not_false, if_true] at globbed
      exact ⟨[above.reverse], rfl, by simp [mem_globIn globbed]⟩
  | true =>
      simp only [upper, Bool.not_true, Bool.false_eq_true, if_false] at globbed
      rcases Option.bind_eq_some_iff.mp globbed with ⟨dirs, isUpper, rest⟩
      rcases Option.bind_eq_some_iff.mp rest with ⟨lists, mapped, result⟩
      cases result
      refine ⟨dirs, isUpper, ?_⟩
      simp only [List.mem_flatten, mem_mapM mapped]
      constructor
      · rintro ⟨list, ⟨upper, isUpper, tried⟩, member⟩
        exact ⟨upper, isUpper, (mem_globIn tried).mp member⟩
      · rintro ⟨upper, isUpper, matched⟩
        rcases exists_of_mapM mapped isUpper with ⟨list, tried⟩
        exact ⟨list, ⟨upper, isUpper, tried⟩, (mem_globIn tried).mpr matched⟩

theorem mem_glob {dir path : Path} {file : String} {found : List Path}
    (isPattern : hasMeta file = true) (globbed : glob t (dir ++ [file]) = some found) :
    ∃ dirs, globDirs t dir = some dirs ∧
      (path ∈ found ↔ ∃ upper ∈ dirs, MatchesIn t file upper path) := by
  rw [glob, List.reverse_concat] at globbed
  simpa [globDirs, glob] using @mem_globUp _ t file dir.reverse path found (by simp [isPattern]) globbed

/-- Nothing is new or different. -/
def Shrinks (t t' : FileTree Content) : Prop := ∀ q, t'.find q = t.find q ∨ t'.find q = none

section Shrinks

variable {t' : FileTree Content}

theorem Shrinks.present (shrinks : Shrinks t t') {q : Path} (present : t'.find q ≠ none) :
    t.find q ≠ none := by
  rcases shrinks q with same | gone
  · rwa [← same]
  · exact absurd gone present

/-- What is above something that is there is there. -/
theorem present_of_concat {dir : Path} {name : String} (present : t.find (dir ++ [name]) ≠ none) :
    t.find dir ≠ none := by
  rcases Option.ne_none_iff_exists'.mp present with ⟨node, found⟩
  rw [FileTree.parent found]
  simp

/-- When something is removed, the rest of what matched still matches. -/
theorem Shrinks.mem_globUp (shrinks : Shrinks t t') {pattern : List String}
    {found found' : List Path} (globbed : globUp t pattern = some found)
    (globbed' : globUp t' pattern = some found') {path : Path} :
    path ∈ found' ↔ path ∈ found ∧ t'.find path ≠ none := by
  induction pattern generalizing found found' path with
  | nil =>
      cases globbed
      cases globbed'
      have root : t'.find [] = some .directory := by simp [FileTree.find, Entries.find]
      simp only [List.mem_singleton]
      exact ⟨fun same => ⟨same, by simp [same, root]⟩, And.left⟩
  | cons file above induction =>
      by_cases isPattern : (file :: above).any hasMeta = true
      · rcases @Go.mem_globUp _ _ _ _ path _ isPattern globbed with ⟨dirs, upper, member⟩
        rcases @Go.mem_globUp _ _ _ _ path _ isPattern globbed' with ⟨dirs', upper', member'⟩
        have same : ∀ dir, t'.find dir ≠ none → (dir ∈ dirs' ↔ dir ∈ dirs) := by
          intro dir present
          split at upper
          · rename_i deeper
            rw [if_pos deeper] at upper'
            rw [induction upper upper', and_iff_left present]
          · rename_i literal
            rw [if_neg literal] at upper'
            rw [← Option.some.inj upper, ← Option.some.inj upper']
        rw [member, member']
        constructor
        · rintro ⟨dir, isDir, name, rfl, present, matched⟩
          have listed := (same dir (present_of_concat present)).mp isDir
          exact ⟨⟨dir, listed, name, rfl, shrinks.present present, matched⟩, present⟩
        · rintro ⟨⟨dir, isDir, name, rfl, _, matched⟩, present⟩
          have listed := (same dir (present_of_concat present)).mpr isDir
          exact ⟨dir, listed, name, rfl, present, matched⟩
      · have literal : (file :: above).reverse.any hasMeta = false := by
          rwa [List.any_reverse, ← Bool.not_eq_true]
        rw [globUp] at globbed globbed'
        simp only [literal, Bool.not_false, if_true] at globbed globbed'
        split at globbed
        · contradiction
        rename_i wellFormed
        rw [if_neg wellFormed] at globbed'
        cases globbed
        cases globbed'
        have exact_iff : ∀ u : FileTree Content, path ∈ (if (u.find (file :: above).reverse).isSome
            then [(file :: above).reverse] else []) ↔
              path = (file :: above).reverse ∧ u.find path ≠ none := by
          intro u
          split
          · rename_i present
            rw [List.mem_singleton]
            refine ⟨fun same => ⟨same, ?_⟩, And.left⟩
            rw [same]
            exact Option.isSome_iff_ne_none.mp present
          · rename_i absent
            refine iff_of_false (by simp) fun both => absent ?_
            rcases both with ⟨same, present⟩
            rw [← same]
            exact Option.isSome_iff_ne_none.mpr present
        rw [exact_iff, exact_iff]
        constructor
        · rintro ⟨same, present⟩
          exact ⟨⟨same, shrinks.present present⟩, present⟩
        · rintro ⟨⟨same, _⟩, present⟩
          exact ⟨same, present⟩

theorem Shrinks.mem_globDirs (shrinks : Shrinks t t') {dir upper : Path} {dirs dirs' : List Path}
    (before : globDirs t dir = some dirs) (after : globDirs t' dir = some dirs')
    (present : t'.find upper ≠ none) : upper ∈ dirs' ↔ upper ∈ dirs := by
  rw [globDirs] at before after
  split at before
  · rename_i deeper
    rw [if_pos deeper] at after
    rw [shrinks.mem_globUp before after, and_iff_left present]
  · rename_i literal
    rw [if_neg literal] at after
    rw [← Option.some.inj before, ← Option.some.inj after]

end Shrinks

theorem below_of_globIn {pattern : String} {dir path : Path} {found : List Path}
    (globbed : globIn t pattern dir = some found) (member : path ∈ found) :
    ∃ name, path = dir ++ [name] := by
  rcases (mem_globIn globbed).mp member with ⟨name, same, _⟩
  exact ⟨name, same⟩

/-- A directory whose names are no patterns is globbed alone. -/
theorem below_of_glob {dir path : Path} {file : String} {found : List Path}
    (literal : dir.any hasMeta = false) (globbed : glob t (dir ++ [file]) = some found)
    (member : path ∈ found) : ∃ name, path = dir ++ [name] := by
  have above : dir.reverse.any hasMeta = false := by rwa [List.any_reverse]
  rw [glob, List.reverse_concat, globUp] at globbed
  simp only [above, Bool.not_false, if_true, List.reverse_reverse, List.reverse_cons] at globbed
  split at globbed
  · contradiction
  · split at globbed
    · rw [Option.some.injEq] at globbed
      subst globbed
      split at member
      · exact ⟨file, List.mem_singleton.mp member⟩
      · contradiction
    · exact below_of_globIn globbed member

end

end Kiyomi.Go
