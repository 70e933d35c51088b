import Kiyomi.Go.Filepath

namespace Kiyomi.Go

/-! # Paths as strings

`filepath.Clean`, `Join` and `Rel` for absolute and relative paths. A path comes to its
normal form: whether it is rooted, how many `..` it begins with, and the names that follow. -/

/-- The normal form of a path. -/
@[ext] structure Lexical where
  rooted : Bool
  /-- The `..` that nothing cancels. Above the root there is nothing. -/
  ups : Nat
  names : List String
  rootless : rooted = true → ups = 0
  valid : ∀ name ∈ names, isName name = true
  deriving DecidableEq

namespace Lexical

def start (rooted : Bool) : Lexical where
  rooted
  ups := 0
  names := []
  rootless _ := rfl
  valid _ member := absurd member List.not_mem_nil

/-- The directory above. -/
def up (p : Lexical) : Lexical where
  rooted := p.rooted
  ups := if p.names = [] ∧ p.rooted = false then p.ups + 1 else p.ups
  names := p.names.dropLast
  rootless isRooted := by
    rw [if_neg (by simp [isRooted])]
    exact p.rootless isRooted
  valid name member := p.valid name ((List.dropLast_sublist _).subset member)

def down (p : Lexical) (name : String) (isValid : isName name = true) : Lexical where
  rooted := p.rooted
  ups := p.ups
  names := p.names ++ [name]
  rootless := p.rootless
  valid other member := by
    rcases List.mem_append.mp member with old | new
    · exact p.valid other old
    · exact List.mem_singleton.mp new ▸ isValid

/-- One piece between slashes; empty pieces and `.` change nothing. -/
def step (p : Lexical) (piece : String) : Lexical :=
  if piece = ".." then p.up
  else if isValid : isName piece = true then p.down piece isValid
  else p

def walk (p : Lexical) (pieces : List String) : Lexical := pieces.foldl step p

/-- What relative pieces come to. -/
def relative (pieces : List String) : Lexical := (start false).walk pieces

/-- A path goes on with a relative one. -/
def append (p q : Lexical) : Lexical where
  rooted := p.rooted
  ups := if p.rooted then p.ups else p.ups + (q.ups - p.names.length)
  names := p.names.take (p.names.length - q.ups) ++ q.names
  rootless isRooted := by
    rw [if_pos isRooted]
    exact p.rootless isRooted
  valid name member := by
    rcases List.mem_append.mp member with left | right
    · exact p.valid name (List.mem_of_mem_take left)
    · exact q.valid name right

@[simp] theorem start_rooted (rooted : Bool) : (start rooted).rooted = rooted := rfl

@[simp] theorem start_names (rooted : Bool) : (start rooted).names = [] := rfl

@[simp] theorem up_rooted (p : Lexical) : p.up.rooted = p.rooted := rfl

@[simp] theorem down_rooted (p : Lexical) (name : String) (isValid : isName name = true) :
    (p.down name isValid).rooted = p.rooted := rfl

@[simp] theorem step_rooted (p : Lexical) (piece : String) : (p.step piece).rooted = p.rooted := by
  unfold step
  split
  · rfl
  · split <;> rfl

@[simp] theorem walk_rooted (p : Lexical) (pieces : List String) :
    (p.walk pieces).rooted = p.rooted := by
  induction pieces generalizing p with
  | nil => rfl
  | cons piece pieces induction => exact (induction (p.step piece)).trans (step_rooted p piece)

theorem walk_append (p : Lexical) (front back : List String) :
    p.walk (front ++ back) = (p.walk front).walk back :=
  List.foldl_append

theorem append_start (p : Lexical) : p.append (start false) = p := by
  refine Lexical.ext rfl ?_ ?_
  · simp [append, start]
  · simp [append, start]

theorem append_step (p q : Lexical) (relative : q.rooted = false) (piece : String) :
    (p.append q).step piece = p.append (q.step piece) := by
  unfold step
  split
  · refine Lexical.ext rfl ?_ ?_
    · by_cases isRooted : p.rooted = true
      · simp [up, append, isRooted]
      · rw [Bool.not_eq_true] at isRooted
        by_cases empty : q.names = []
        · simp only [up, append, isRooted, empty, relative, List.append_nil, Bool.false_eq_true,
            if_false, and_self, and_true, if_true, List.take_eq_nil_iff]
          split <;> rename_i exhausted
          · rcases exhausted with exhausted | exhausted
            · omega
            · rw [exhausted, List.length_nil]
              omega
          · push Not at exhausted
            omega
        · simp [up, append, isRooted, empty]
    · by_cases empty : q.names = []
      · simp only [up, append, empty, relative, List.append_nil, List.dropLast_nil, and_self,
          if_true]
        rw [List.dropLast_eq_take, List.take_take, List.length_take]
        congr 1
        omega
      · simp only [up, append, empty, false_and, if_false]
        rw [List.dropLast_append_of_ne_nil empty]
  · split
    · refine Lexical.ext rfl rfl ?_
      simp [down, append]
    · rfl

@[simp] theorem append_rooted (p q : Lexical) : (p.append q).rooted = p.rooted := rfl

/-- A walk from a path is the path with what the pieces come to. -/
theorem walk_eq_append (p : Lexical) (pieces : List String) :
    p.walk pieces = p.append (relative pieces) := by
  suffices ∀ q : Lexical, q.rooted = false → (p.append q).walk pieces = p.append (q.walk pieces) by
    have whole := this (start false) rfl
    rwa [append_start] at whole
  induction pieces with
  | nil => exact fun _ _ => rfl
  | cons piece pieces induction =>
      intro q isRelative
      change ((p.append q).step piece).walk pieces = p.append ((q.step piece).walk pieces)
      rw [append_step p q isRelative, induction _ ((step_rooted q piece).trans isRelative)]

theorem not_isName_dots : isName ".." = false := by decide

/-- Proper names go on the end. -/
theorem walk_names {names : List String} (valid : ∀ name ∈ names, isName name = true)
    (p : Lexical) :
    (p.walk names).rooted = p.rooted ∧ (p.walk names).ups = p.ups ∧
      (p.walk names).names = p.names ++ names := by
  induction names generalizing p with
  | nil => exact ⟨rfl, rfl, (List.append_nil _).symm⟩
  | cons name names induction =>
      rw [List.forall_mem_cons] at valid
      have goesDown : p.step name = p.down name valid.1 := by
        have differs : name ≠ ".." := by
          rintro rfl
          rw [not_isName_dots] at valid
          exact Bool.false_ne_true valid.1
        rw [step, if_neg differs, dif_pos valid.1]
      change ((p.step name).walk names).rooted = _ ∧ ((p.step name).walk names).ups = _ ∧
        ((p.step name).walk names).names = _
      rw [goesDown]
      have rest := induction valid.2 (p.down name valid.1)
      refine ⟨rest.1, rest.2.1, ?_⟩
      rw [rest.2.2]
      simp [down]

theorem walk_ups (count : Nat) :
    ((start false).walk (List.replicate count "..")).ups = count ∧
      ((start false).walk (List.replicate count "..")).names = [] := by
  induction count with
  | zero => exact ⟨rfl, rfl⟩
  | succ count induction =>
      rw [List.replicate_succ', walk_append]
      change (((start false).walk (List.replicate count "..")).step "..").ups = _ ∧
        (((start false).walk (List.replicate count "..")).step "..").names = _
      rw [step, if_pos rfl]
      simp [up, induction]

/-! ## Text -/

/-- The pieces that are written. -/
def parts (p : Lexical) : List String := List.replicate p.ups ".." ++ p.names

theorem piece_of_parts {p : Lexical} {piece : String} (member : piece ∈ p.parts) :
    piece ≠ "" ∧ '/' ∉ piece.toList := by
  rcases List.mem_append.mp member with dots | name
  · rw [List.eq_of_mem_replicate dots]
    decide
  · have isValid := p.valid piece name
    simp only [isName, Bool.and_eq_true, bne_iff_ne, Bool.not_eq_true', List.contains_eq_mem,
      decide_eq_false_iff_not] at isValid
    exact ⟨isValid.1.1.1, isValid.2⟩

theorem walk_parts (p : Lexical) : (start p.rooted).walk p.parts = p := by
  have names := walk_names p.valid
  cases isRooted : p.rooted with
  | true =>
      have noUps := p.rootless isRooted
      have isNames : p.parts = p.names := by rw [parts, noUps, List.replicate_zero, List.nil_append]
      have walked := names (start true)
      rw [isNames]
      exact Lexical.ext (walked.1.trans isRooted.symm) (walked.2.1.trans noUps.symm) walked.2.2
  | false =>
      have walked := names ((start false).walk (List.replicate p.ups ".."))
      rw [parts, walk_append]
      refine Lexical.ext ?_ ?_ ?_
      · rw [walked.1, walk_rooted, isRooted, start_rooted]
      · rw [walked.2.1, (walk_ups p.ups).1]
      · rw [walked.2.2, (walk_ups p.ups).2, List.nil_append]

def text (p : Lexical) : String :=
  if p.rooted then "/" ++ "/".intercalate p.parts
  else if p.parts = [] then "."
  else "/".intercalate p.parts

end Lexical

theorem splitChars_append (separator : Char) (front back : List Char) :
    splitChars separator (front ++ separator :: back) =
      splitChars separator front ++ splitChars separator back := by
  induction front with
  | nil => simp [splitChars]
  | cons c front induction =>
      rw [List.cons_append, splitChars, splitChars]
      split
      · rw [induction, List.cons_append]
      · rw [induction]
        cases pieces : splitChars separator front with
        | nil =>
            have nonempty := split_ne_nil (String.ofList front) separator
            simp [split, pieces] at nonempty
        | cons piece pieces => rfl

theorem split_append_slash (front back : String) :
    split (front ++ "/" ++ back) '/' = split front '/' ++ split back '/' := by
  have chars : (front ++ "/" ++ back).toList = front.toList ++ '/' :: back.toList := by simp
  rw [split, chars, splitChars_append, List.map_append]
  rfl

/-- A suffix without a separator belongs to the last piece. -/
theorem split_suffix {suffix : String} (noSlash : '/' ∉ suffix.toList) (s : String) :
    ∃ front last, split (s ++ suffix) '/' = front ++ [last ++ suffix] ∧ '/' ∉ last.toList := by
  have chars (letters : List Char) : ∃ front last,
      splitChars '/' (letters ++ suffix.toList) = front ++ [last ++ suffix.toList] ∧
        '/' ∉ last := by
    induction letters with
    | nil =>
        have whole := congrArg (List.map String.toList) (split_of_absent noSlash)
        refine ⟨[], [], ?_, List.not_mem_nil⟩
        simpa [split, Function.comp_def] using whole
    | cons c letters induction =>
        rcases induction with ⟨front, last, pieces, free⟩
        rw [List.cons_append, splitChars]
        split
        · exact ⟨[] :: front, last, by rw [pieces]; rfl, free⟩
        · rename_i isLetter
          rw [pieces]
          cases front with
          | nil =>
              refine ⟨[], c :: last, rfl, ?_⟩
              rw [List.mem_cons, not_or]
              exact ⟨Ne.symm isLetter, free⟩
          | cons piece front => exact ⟨(c :: piece) :: front, last, rfl, free⟩
  rcases chars s.toList with ⟨front, last, pieces, free⟩
  refine ⟨front.map String.ofList, String.ofList last, ?_, by simpa using free⟩
  rw [split, String.toList_append, pieces]
  simp [String.ofList_append]

theorem split_intercalate_cons (piece : String) (pieces : List String) :
    split ("/".intercalate (piece :: pieces)) '/' =
      (piece :: pieces).flatMap fun element => split element '/' := by
  induction pieces generalizing piece with
  | nil => rw [String.intercalate_singleton, List.flatMap_singleton]
  | cons next pieces induction =>
      rw [String.intercalate_cons_cons, split_append_slash, induction]
      rfl

theorem split_intercalate {pieces : List String} (nonempty : pieces ≠ [])
    (noSlash : ∀ piece ∈ pieces, '/' ∉ piece.toList) :
    split ("/".intercalate pieces) '/' = pieces := by
  cases pieces with
  | nil => contradiction
  | cons piece pieces =>
      rw [split_intercalate_cons]
      have whole : ∀ piece' ∈ piece :: pieces, split piece' '/' = [piece'] :=
        fun piece' member => split_of_absent (noSlash piece' member)
      rw [List.flatMap_congr whole, List.flatMap_singleton']

theorem head_intercalate {first : String} (nonempty : first ≠ "") (rest : List String) :
    ("/".intercalate (first :: rest)).toList.head? = first.toList.head? := by
  cases rest with
  | nil => rw [String.intercalate_singleton]
  | cons second rest =>
      have isSome : first.toList ≠ [] := fun empty => nonempty (String.toList_eq_nil_iff.mp empty)
      rw [String.intercalate_cons_cons, String.toList_append, String.toList_append,
        List.append_assoc, List.head?_append_of_ne_nil _ isSome]

def lexical (path : String) : Lexical :=
  (Lexical.start (path.toList.head? == some '/')).walk (split path '/')

/-- `filepath.Clean`. -/
def clean (path : String) : String := (lexical path).text

/-- A normal form is read back from its text. -/
theorem lexical_text (p : Lexical) : lexical p.text = p := by
  have noSlash : ∀ piece ∈ p.parts, '/' ∉ piece.toList := fun _ member => (p.piece_of_parts member).2
  cases isRooted : p.rooted with
  | true =>
      have isText : p.text = "" ++ "/" ++ "/".intercalate p.parts := by
        rw [Lexical.text, if_pos isRooted, String.empty_append]
      have first : p.text.toList.head? = some '/' := by
        rw [isText]
        simp
      have walked := p.walk_parts
      rw [isRooted] at walked
      have isStart : (Lexical.start true).step "" = Lexical.start true := rfl
      rw [lexical, first, isText, split_append_slash]
      by_cases empty : p.parts = []
      · rw [empty] at walked ⊢
        exact walked
      · rw [split_intercalate empty noSlash, Lexical.walk_append]
        exact walked
  | false =>
      have walked := p.walk_parts
      rw [isRooted] at walked
      rw [lexical, Lexical.text, if_neg (by simp [isRooted])]
      by_cases empty : p.parts = []
      · rw [empty] at walked
        rw [if_pos empty]
        exact walked
      · rw [if_neg empty, split_intercalate empty noSlash]
        cases pieces : p.parts with
        | nil => contradiction
        | cons first rest =>
            have isPiece := p.piece_of_parts (pieces ▸ List.mem_cons_self : first ∈ p.parts)
            have notSlash : (first.toList.head? == some '/') = false := by
              rw [beq_eq_false_iff_ne]
              exact fun isSlash => isPiece.2 (List.mem_of_head? isSlash)
            rw [head_intercalate isPiece.1, notSlash, ← pieces]
            exact walked

/-- `filepath.Join` of a path and further elements. -/
def joinPath (path : String) (elements : List String) : String :=
  clean ("/".intercalate ((path :: elements).dropWhile (· = "")))

theorem Lexical.text_injective {p q : Lexical} (same : p.text = q.text) : p = q := by
  rw [← lexical_text p, same, lexical_text]

theorem Lexical.text_ne_empty (p : Lexical) : p.text ≠ "" := by
  intro empty
  have isStart : p = start false := by rw [← lexical_text p, empty]; rfl
  rw [isStart] at empty
  exact absurd empty (by decide)

/-- Joining walks on from the path. -/
theorem joinPath_eq {path : String} (nonempty : path ≠ "") (elements : List String) :
    joinPath path elements =
      ((lexical path).walk (elements.flatMap fun element => split element '/')).text := by
  rw [joinPath, List.dropWhile_cons_of_neg (by simpa using nonempty), clean, lexical,
    head_intercalate nonempty, split_intercalate_cons, List.flatMap_cons, Lexical.walk_append]
  rfl

theorem joinPath_clean (path : String) (elements : List String) :
    joinPath (clean path) elements =
      ((lexical path).walk (elements.flatMap fun element => split element '/')).text := by
  have isText : clean path = (lexical path).text := rfl
  rw [isText, joinPath_eq (Lexical.text_ne_empty _), lexical_text]

theorem clean_text (p : Lexical) : clean p.text = p.text := by rw [clean, lexical_text]

/-! ## Relative paths -/

/-- The pieces that two paths have after the first that differs. -/
def dropCommon : List String → List String → List String × List String
  | first :: base, second :: target =>
      if first = second then dropCommon base target else (first :: base, second :: target)
  | base, target => (base, target)

/-- `filepath.Rel`; it fails where only the working directory could tell. -/
def rel (basepath targpath : String) : Option String :=
  let base := lexical basepath
  let target := lexical targpath
  if base = target then some "."
  else if base.rooted ≠ target.rooted then none
  else
    let (above, below) := dropCommon base.parts target.parts
    if above.head? = some ".." then none
    else some ("/".intercalate (List.replicate above.length ".." ++ below))

theorem dropCommon_spec (base target : List String) : ∃ common,
    base = common ++ (dropCommon base target).1 ∧ target = common ++ (dropCommon base target).2 := by
  induction base generalizing target with
  | nil => exact ⟨[], rfl, rfl⟩
  | cons first base induction =>
      cases target with
      | nil => exact ⟨[], rfl, rfl⟩
      | cons second target =>
          rw [dropCommon]
          split
          · rename_i same
            rcases induction target with ⟨common, left, right⟩
            exact ⟨first :: common, congrArg (first :: ·) left, same ▸ congrArg (first :: ·) right⟩
          · exact ⟨[], rfl, rfl⟩

/-- Where the text of pieces begins with two dots, the first piece does. -/
theorem hasPrefix_intercalate {first : String} (nonempty : first ≠ "") (rest : List String) :
    hasPrefix ("/".intercalate (first :: rest)) ".." = hasPrefix first ".." := by
  cases rest with
  | nil => rw [String.intercalate_singleton]
  | cons second rest =>
      have chars : ("/".intercalate (first :: second :: rest)).toList =
          first.toList ++ '/' :: ("/".intercalate (second :: rest)).toList := by
        rw [String.intercalate_cons_cons, String.toList_append, String.toList_append,
          List.append_assoc]
        rfl
      have dots : "..".toList = ['.', '.'] := rfl
      rw [hasPrefix, hasPrefix, chars, dots]
      cases letters : first.toList with
      | nil => exact absurd (String.toList_eq_nil_iff.mp letters) nonempty
      | cons a others =>
          cases others with
          | nil => simp [List.isPrefixOf]
          | cons b others => rfl

theorem dropWhile_dots (count : Nat) {names : List String} (first : names.head? ≠ some "..") :
    (List.replicate count ".." ++ names).dropWhile (· = "..") = names := by
  induction count with
  | zero =>
      cases names with
      | nil => rfl
      | cons name names => exact List.dropWhile_cons_of_neg (by simpa using first)
  | succ count induction =>
      rw [List.replicate_succ, List.cons_append, List.dropWhile_cons_of_pos (by simp)]
      exact induction

theorem Lexical.head_names (p : Lexical) : p.names.head? ≠ some ".." := by
  intro isDots
  have isValid := p.valid ".." (List.mem_of_head? isDots)
  rw [not_isName_dots] at isValid
  contradiction

/-- The pieces of a normal form tell its parts. -/
theorem Lexical.descends {base target : Lexical} {below : List String}
    (parts : target.parts = base.parts ++ below) (first : below.head? ≠ some "..") :
    target.ups = base.ups ∧ target.names = base.names ++ below := by
  have head : (base.names ++ below).head? ≠ some ".." := by
    cases names : base.names with
    | nil => exact first
    | cons name names =>
        have headNames := base.head_names
        rw [names] at headNames
        exact headNames
  rw [Lexical.parts, Lexical.parts, List.append_assoc] at parts
  have names : target.names = base.names ++ below := by
    rw [← dropWhile_dots target.ups target.head_names, parts, dropWhile_dots base.ups head]
  refine ⟨?_, names⟩
  have lengths := congrArg List.length parts
  rw [names] at lengths
  simpa using lengths

/-- The check of a containing directory, and what it leaves. -/
theorem descends_of_rel {base target : Lexical} {path : String}
    (isRel : rel base.text target.text = some path) (noDots : hasPrefix path ".." = false) :
    path = "." ∧ target = base ∨
      ∃ below, below ≠ [] ∧ (∀ name ∈ below, isName name = true) ∧ target = base.walk below := by
  rw [rel, lexical_text, lexical_text] at isRel
  simp only at isRel
  split at isRel
  · rename_i same
    exact .inl ⟨(Option.some.inj isRel).symm, same.symm⟩
  · rename_i differs
    split at isRel
    · contradiction
    · rename_i sameRoot
      rw [not_not] at sameRoot
      rcases dropCommon_spec base.parts target.parts with ⟨common, left, right⟩
      split at isRel
      · contradiction
      · have isPath := Option.some.inj isRel
        cases above : (dropCommon base.parts target.parts).1 with
        | cons name rest =>
            rw [above, List.length_cons, List.replicate_succ, List.cons_append] at isPath
            rw [← isPath, hasPrefix_intercalate (by decide)] at noDots
            contradiction
        | nil =>
            rw [above, List.append_nil] at left
            rw [above, List.length_nil, List.replicate_zero, List.nil_append] at isPath
            rw [← left] at right
            have first : (dropCommon base.parts target.parts).2.head? ≠ some ".." := by
              cases below : (dropCommon base.parts target.parts).2 with
              | nil => simp
              | cons name rest =>
                  rw [below] at right isPath
                  have isPiece := target.piece_of_parts
                    (right ▸ List.mem_append_right _ List.mem_cons_self)
                  rw [← isPath, hasPrefix_intercalate isPiece.1] at noDots
                  rintro isDots
                  rw [List.head?_cons, Option.some.injEq] at isDots
                  rw [isDots] at noDots
                  contradiction
            have descends := Lexical.descends right first
            have valid : ∀ name ∈ (dropCommon base.parts target.parts).2, isName name = true :=
              fun name member =>
                target.valid name (descends.2 ▸ List.mem_append_right _ member)
            have walked := Lexical.walk_names valid base
            have isWalk : target = base.walk (dropCommon base.parts target.parts).2 :=
              Lexical.ext (walked.1.trans sameRoot).symm (walked.2.1.trans descends.1.symm).symm
                (walked.2.2.trans descends.2.symm).symm
            refine .inr ⟨_, fun empty => ?_, valid, isWalk⟩
            rw [empty] at isWalk
            exact differs isWalk.symm

theorem dropCommon_append (base below : List String) :
    dropCommon base (base ++ below) = ([], below) := by
  induction base with
  | nil => cases below <;> rfl
  | cons first base induction =>
      rw [List.cons_append, dropCommon, if_pos rfl]
      exact induction

/-- A path below another is told from it by the names between. -/
theorem rel_walk (base : Lexical) {below : List String} (nonempty : below ≠ [])
    (valid : ∀ name ∈ below, isName name = true) :
    rel base.text (base.walk below).text = some ("/".intercalate below) := by
  have walked := Lexical.walk_names valid base
  have differs : base ≠ base.walk below := by
    intro same
    have names := walked.2.2
    rw [← same] at names
    exact nonempty (List.self_eq_append_right.mp names)
  have parts : (base.walk below).parts = base.parts ++ below := by
    rw [Lexical.parts, Lexical.parts, walked.2.1, walked.2.2, List.append_assoc]
  rw [rel, lexical_text, lexical_text]
  simp only [if_neg differs, walked.1, ne_eq, not_true_eq_false, if_false, parts, dropCommon_append]
  rfl

/-! ## Absolute paths -/

theorem cleanFrom_eq_walk {pieces : List String} (noSlash : ∀ piece ∈ pieces, '/' ∉ piece.toList)
    {p : Lexical} (isRooted : p.rooted = true) :
    cleanFrom p.names.reverse pieces = (p.walk pieces).names := by
  induction pieces generalizing p with
  | nil => rw [cleanFrom, List.reverse_reverse]; rfl
  | cons piece pieces induction =>
      rw [List.forall_mem_cons] at noSlash
      have goesOn := induction noSlash.2 ((Lexical.step_rooted p piece).trans isRooted)
      change _ = ((p.step piece).walk pieces).names
      rw [← goesOn, cleanFrom, Lexical.step]
      by_cases dots : piece = ".."
      · subst dots
        simp [Lexical.up, List.tail_reverse]
      · by_cases isValid : isName piece = true
        · have named : piece ≠ "" ∧ piece ≠ "." := by
            simp only [isName, Bool.and_eq_true, bne_iff_ne] at isValid
            exact isValid.1.1
          rw [if_neg (by simp [named]), if_neg dots, if_neg dots, dif_pos isValid]
          simp [Lexical.down]
        · have empty : piece = "" ∨ piece = "." := by
            by_contra other
            rw [not_or] at other
            refine isValid ?_
            simp only [isName, Bool.and_eq_true, bne_iff_ne, Bool.not_eq_true', List.contains_eq_mem,
              decide_eq_false_iff_not]
            exact ⟨⟨other, dots⟩, noSlash.1⟩
          rw [if_pos empty, if_neg dots, dif_neg isValid]

theorem not_mem_split {s piece : String} (member : piece ∈ split s '/') : '/' ∉ piece.toList := by
  have pieces (letters : List Char) : ∀ piece ∈ splitChars '/' letters, '/' ∉ piece := by
    induction letters with
    | nil => simp [splitChars]
    | cons c letters induction =>
        rw [splitChars]
        split
        · exact List.forall_mem_cons.mpr ⟨List.not_mem_nil, induction⟩
        · rename_i isLetter
          cases rest : splitChars '/' letters with
          | nil => simpa using Ne.symm isLetter
          | cons first others =>
              rw [rest, List.forall_mem_cons] at induction
              refine List.forall_mem_cons.mpr ⟨?_, induction.2⟩
              rw [List.mem_cons, not_or]
              exact ⟨Ne.symm isLetter, induction.1⟩
  rcases List.mem_map.mp member with ⟨letters, isPiece, rfl⟩
  simpa using pieces s.toList letters isPiece

/-- On absolute paths the two joins agree. -/
theorem join_eq_walk {p : Lexical} (isRooted : p.rooted = true) (elements : List String) :
    join p.names elements =
      (p.walk (elements.flatMap fun element => split element '/')).names := by
  refine cleanFrom_eq_walk (fun piece member => ?_) isRooted
  rcases List.mem_flatMap.mp member with ⟨element, _, isPiece⟩
  exact not_mem_split isPiece

end Kiyomi.Go
