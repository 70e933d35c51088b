import Kiyomi.Foundation.Interruptions
import Kiyomi.Library.MangaReads
import Kiyomi.Library.SaveFrames

namespace Kiyomi.Library

open Go

/-! # Saves that are cut short

The process can end at any call of a save, and a call can fail. Either way the files of the
manga are whole: those that are written come before those that are not. -/

variable {Question : Type} {Answer : Question → Type} [DecidableEq Question]

/-- A path stays as it was, or becomes one of the directories that lead to another path. -/
def Kept (dir q : Path) (before after : Disk) : Prop :=
  after.find q = before.find q ∨
    q <+: dir ∧ before.find q = none ∧ after.find q = some .directory

namespace Kept

variable {dir q : Path} {first middle last : Disk}

theorem refl (dir q : Path) (disk : Disk) : Kept dir q disk disk := .inl rfl

theorem trans (early : Kept dir q first middle) (late : Kept dir q middle last) :
    Kept dir q first last := by
  rcases early with same | ⟨above, absent, made⟩
  · rcases late with same' | ⟨above, absent, made⟩
    · exact .inl (same'.trans same)
    · exact .inr ⟨above, same.symm.trans absent, made⟩
  · rcases late with same' | ⟨_, absent', _⟩
    · exact .inr ⟨above, absent, same'.trans made⟩
    · rw [made] at absent'
      contradiction

/-- No file comes or goes. -/
theorem readFile (kept : Kept dir q first last) : last.readFile q = first.readFile q := by
  rcases kept with same | ⟨_, absent, made⟩
  · rw [FileTree.readFile, FileTree.readFile, same]
  · rw [FileTree.readFile, FileTree.readFile, absent, made]

theorem find (kept : Kept dir q first last) (below : ¬ q <+: dir) :
    last.find q = first.find q :=
  kept.resolve_right fun made => below made.1

end Kept

/-! ## What a manga consists of -/

/-- What a file of a manga holds. -/
inductive Held (α : Type)
  | missing
  /-- The file cannot be read, or something else is in its place. -/
  | unreadable
  | value (content : α)
  deriving DecidableEq

/-- What is read of it; a missing file reads as the zero value. -/
def Held.read (zero : α) : Held α → Option α
  | .missing => some zero
  | .unreadable => none
  | .value content => some content

def Held.ofDocument (decode : Document → Option α) (document : Document) : Held α :=
  match decode document with
  | none => .unreadable
  | some content => .value content

def held (disk : Disk) (path : Path) (decode : Document → Option α) : Held α :=
  if Layout.notExist disk path then .missing
  else
    match disk.readFile path with
    | none => .unreadable
    | some document => .ofDocument decode document

def Document.metadata? : Document → Option MangaMetadata
  | .metadata m => some m
  | _ => none

def Document.userState? : Document → Option UserState
  | .userState u => some u
  | _ => none

def Document.bindings? : Document → Option MangaBindings
  | .bindings b => some b
  | _ => none

/-- The three files of a manga. -/
structure Shelved where
  metadata : Held MangaMetadata
  userState : Held UserState
  bindings : Held MangaBindings
  deriving DecidableEq

/-- The files in the directory of a manga. -/
def shelved (disk : Disk) (dir : Path) : Shelved where
  metadata := held disk (dir ++ ["metadata.json"]) Document.metadata?
  userState := held disk (dir ++ ["user_state.json"]) Document.userState?
  bindings := held disk (dir ++ ["bindings.json"]) Document.bindings?

namespace Shelved

/-- One file gets a new content. -/
def write (s : Shelved) (file : String × Document) : Shelved where
  metadata :=
    if file.1 = "metadata.json" then .ofDocument Document.metadata? file.2 else s.metadata
  userState :=
    if file.1 = "user_state.json" then .ofDocument Document.userState? file.2 else s.userState
  bindings :=
    if file.1 = "bindings.json" then .ofDocument Document.bindings? file.2 else s.bindings

/-- What `GetManga` makes of the files. -/
def manga (s : Shelved) (id : String) : Option Manga :=
  match s.metadata with
  | .missing => none
  | _ => do
      let metadata ← s.metadata.read MangaMetadata.zero
      let userState ← s.userState.read UserState.zero
      let bindings ← s.bindings.read SavedBindings.missing.bindings
      some { id, metadata, userState, bindings }

end Shelved

theorem readConcern_eq (disk : Disk) (path : Path) (zero : α) (decode : Document → Option α) :
    Layout.readConcern disk path zero decode = (held disk path decode).read zero := by
  unfold Layout.readConcern held
  split
  · rfl
  · cases disk.readFile path with
    | none => rfl
    | some document =>
        change decode document = (Held.ofDocument decode document).read zero
        unfold Held.ofDocument
        cases decode document <;> rfl

theorem held_congr {before after : Disk} {path : Path} (decode : Document → Option α)
    (same : SameAt path before after) : held after path decode = held before path decode := by
  have clear : Layout.notExist after path = Layout.notExist before path := by
    unfold Layout.notExist
    rw [same.1]
    congr 1
    rw [Bool.eq_iff_iff, List.all_eq_true, List.all_eq_true]
    exact forall₂_congr fun upper member => by
      rw [same.2 upper ((List.mem_inits upper path).mp member)]
  unfold held
  rw [clear, same.2 path (List.prefix_refl path)]

theorem held_of_file {disk : Disk} {path : Path} {document : Document}
    (decode : Document → Option α) (found : disk.find path = some (.file document)) :
    held disk path decode = .ofDocument decode document := by
  simp [held, Layout.notExist, FileTree.readFile, found]

section Readings

variable {l : Layout} {id : String} {dir : Path} {disk : Disk}

theorem getMetadata_shelved (located : l.mangaDir id = .ok dir) :
    l.getMetadata disk id = (shelved disk dir).metadata.read MangaMetadata.zero := by
  simp only [Layout.getMetadata, located]
  exact readConcern_eq disk _ _ _

theorem getUserState_shelved (located : l.mangaDir id = .ok dir) :
    l.getUserState disk id = (shelved disk dir).userState.read UserState.zero := by
  simp only [Layout.getUserState, located]
  exact readConcern_eq disk _ _ _

theorem getBindings_shelved (located : l.mangaDir id = .ok dir) :
    l.getBindings disk id =
      (shelved disk dir).bindings.read SavedBindings.missing.bindings := by
  simp only [Layout.getBindings, located]
  exact readConcern_eq disk _ _ _

theorem getManga_shelved (located : l.mangaDir id = .ok dir) :
    l.getManga disk id = (shelved disk dir).manga id := by
  simp only [Layout.getManga, located, getMetadata_shelved located, getUserState_shelved located,
    getBindings_shelved located, Shelved.manga]
  cases isHeld : (shelved disk dir).metadata with
  | missing =>
      have absent : disk.find (dir ++ ["metadata.json"]) = none := by
        simp only [shelved, held] at isHeld
        split at isHeld
        · rename_i missing
          simp only [Layout.notExist, Bool.and_eq_true, decide_eq_true_eq] at missing
          exact missing.1
        · split at isHeld
          · contradiction
          · unfold Held.ofDocument at isHeld
            split at isHeld <;> contradiction
      simp [absent]
  | unreadable => simp [Held.read]
  | value m =>
      have isThere : (disk.find (dir ++ ["metadata.json"])).isNone = false := by
        cases found : disk.find (dir ++ ["metadata.json"]) with
        | some node => rfl
        | none =>
            simp only [shelved, held, FileTree.readFile, found] at isHeld
            split at isHeld <;> contradiction
      simp [isThere]

end Readings

def concernFiles : List String := ["metadata.json", "user_state.json", "bindings.json"]

/-- No file of a manga has the name of a temporary one. -/
theorem concernFiles_regular {name other : String} (named : name ∈ concernFiles)
    (isOther : other ∈ concernFiles) (digits : String) : other ≠ name ++ ".tmp." ++ digits := by
  have apart : ∀ name ∈ concernFiles, ∀ other ∈ concernFiles,
      ¬ (name ++ ".tmp.").toList <+: other.toList := by decide +kernel
  intro same
  refine apart name named other isOther ?_
  simp [same]

/-! ## One file -/

/-- What can be there when one file is being written: the file may be, and temporary ones
next to it. -/
structure Rewritten (dir : Path) (name : String) (content : Document) (written : Bool)
    (before after : Disk) : Prop where
  new : written = true → after.find (dir ++ [name]) = some (.file content)
  kept : ∀ q, (written = true → q ≠ dir ++ [name]) →
    (∀ digits : String, q ≠ dir ++ [name ++ ".tmp." ++ digits]) → Kept dir q before after

namespace Rewritten

variable {dir : Path} {name : String} {content : Document} {written : Bool} {before after : Disk}

/-- No file above the directory has come or gone. -/
theorem above (rewritten : Rewritten dir name content written before after) {upper : Path}
    (isAbove : upper <+: dir) : after.readFile upper = before.readFile upper := by
  have other (last : String) : upper ≠ dir ++ [last] := by
    rintro rfl
    have short := isAbove.length_le
    simp at short
  exact (rewritten.kept upper (fun _ => other name) fun digits => other _).readFile

theorem held (rewritten : Rewritten dir name content written before after) {other : String}
    (regular : ∀ digits : String, other ≠ name ++ ".tmp." ++ digits)
    (decode : Document → Option α) :
    held after (dir ++ [other]) decode =
      if written = true ∧ other = name then .ofDocument decode content
      else held before (dir ++ [other]) decode := by
  split
  · rename_i both
    rcases both with ⟨isWritten, rfl⟩
    exact held_of_file decode (rewritten.new isWritten)
  · rename_i kept
    have noTarget : written = true → dir ++ [other] ≠ dir ++ [name] := by
      intro isWritten same
      exact kept ⟨isWritten, by simpa using same⟩
    have noTemporary : ∀ digits : String, dir ++ [other] ≠ dir ++ [name ++ ".tmp." ++ digits] := by
      intro digits same
      exact regular digits (by simpa using same)
    have stays := rewritten.kept _ noTarget noTemporary
    have long : ¬ dir ++ [other] <+: dir := fun isPrefix => by
      have short := isPrefix.length_le
      simp at short
    refine held_congr decode ⟨stays.find long, fun upper isUpper => ?_⟩
    rcases List.prefix_concat_iff.mp isUpper with rfl | isAbove
    · exact stays.readFile
    · exact rewritten.above isAbove

theorem shelved (rewritten : Rewritten dir name content written before after)
    (named : name ∈ concernFiles) :
    shelved after dir =
      if written = true then (shelved before dir).write (name, content) else shelved before dir := by
  have isMetadata : "metadata.json" ∈ concernFiles := List.mem_cons_self
  have isUserState : "user_state.json" ∈ concernFiles := List.mem_cons_of_mem _ List.mem_cons_self
  have isBindings : "bindings.json" ∈ concernFiles :=
    List.mem_cons_of_mem _ (List.mem_cons_of_mem _ List.mem_cons_self)
  have metadata := rewritten.held (concernFiles_regular named isMetadata) Document.metadata?
  have userState := rewritten.held (concernFiles_regular named isUserState) Document.userState?
  have bindings := rewritten.held (concernFiles_regular named isBindings) Document.bindings?
  rw [Library.shelved, metadata, userState, bindings]
  cases written with
  | false => rfl
  | true => simp [Shelved.write, Library.shelved, eq_comm]

end Rewritten

section OneFile

variable {l : Layout} {dir : Path} {name id : String} {content : Document}
  {f f' : Files Document} {choices : List (FileChoice Answer)} {saved : Bool}

theorem kept_mkdirAll {target : Path} {choice : FileChoice Answer} {reply : Except FileError Unit}
    (responded : f.respond (.mkdirAll target : FileCall Document Question) choice =
      some (reply, f')) (q : Path) : Kept target q f.tree f'.tree := by
  rcases Files.respond_cases responded with rfl | ⟨tree, touched, rfl, reached, created, _⟩
  · exact .refl target q _
  · change Kept target q f.tree tree
    by_cases upper : q <+: target.take reached
    · have directory : tree.find q = some .directory := by
        rw [FileTree.find_mkdirAll created, if_pos upper]
      cases found : f.tree.find q with
      | none => exact .inr ⟨upper.trans (List.take_prefix reached target), found, directory⟩
      | some node =>
          rw [Kept, found]
          exact .inl (FileTree.mkdirAll_keeps created found)
    · rw [Kept, FileTree.find_mkdirAll created, if_neg upper]
      exact .inl rfl

omit [DecidableEq Question] in
/-- Nothing has been written yet. -/
theorem rewritten_of_same {before after : Disk}
    (same : ∀ q, (∀ digits : String, q ≠ dir ++ [name ++ ".tmp." ++ digits]) →
      after.find q = before.find q) : Rewritten dir name content false before after :=
  ⟨fun impossible => by contradiction, fun q _ noTemporary => .inl (same q noTemporary)⟩

theorem saveJSONAtomic_reaches
    (reached : (saveJSONAtomic dir name content : Effect Answer Bool).Reaches Files.respond f f') :
    ∃ written, Rewritten dir name content written f.tree f'.tree := by
  unfold saveJSONAtomic at reached
  rcases Program.reaches_call.mp reached with rfl | ⟨choice₁, created, f₁, responded₁, reached⟩
  · exact ⟨false, rewritten_of_same fun _ _ => rfl⟩
  have outcome₁ := Files.respond_outcome responded₁
  cases created with
  | error why =>
      change f₁.tree = f.tree at outcome₁
      rw [← Program.reaches_done.mp reached, outcome₁]
      exact ⟨false, rewritten_of_same fun _ _ => rfl⟩
  | ok tmp =>
  rcases outcome₁ with ⟨digits, rfl, _, put₁⟩
  have cleans : ∀ {f₂ : Files Document}, (∀ q, q ≠ dir ++ [name ++ ".tmp." ++ digits] →
        f₂.tree.find q = f.tree.find q) →
      (request (.remove (dir ++ [name ++ ".tmp." ++ digits])) >>= fun _ => pure false :
        Effect Answer Bool).Reaches Files.respond f₂ f' →
      ∃ written, Rewritten dir name content written f.tree f'.tree := by
    intro f₂ same reached
    rcases Program.reaches_call.mp reached with rfl | ⟨choice, removed, f₃, responded, reached⟩
    · exact ⟨false, rewritten_of_same fun q other => same q (other digits)⟩
    · rw [← Program.reaches_done.mp reached]
      refine ⟨false, rewritten_of_same fun q other => ?_⟩
      rw [Files.find_of_unchanged responded (other digits), same q (other digits)]
  have find₁ : ∀ q, q ≠ dir ++ [name ++ ".tmp." ++ digits] → f₁.tree.find q = f.tree.find q := by
    intro q other
    rw [FileTree.find_put put₁, if_neg other]
  rcases Program.reaches_call.mp reached with rfl | ⟨choice₂, written, f₂, responded₂, reached⟩
  · exact ⟨false, rewritten_of_same fun q other => find₁ q (other digits)⟩
  have outcome₂ := Files.respond_outcome responded₂
  have find₂ : ∀ q, q ≠ dir ++ [name ++ ".tmp." ++ digits] → f₂.tree.find q = f.tree.find q := by
    intro q other
    rw [Files.find_of_unchanged responded₂ other, find₁ q other]
  cases written with
  | error why => exact cleans find₂ reached
  | ok _ =>
  rcases Program.reaches_call.mp reached with rfl | ⟨choice₃, renamed, f₃, responded₃, reached⟩
  · exact ⟨false, rewritten_of_same fun q other => find₂ q (other digits)⟩
  have outcome₃ := Files.respond_outcome responded₃
  cases renamed with
  | error why =>
      change f₃.tree = f₂.tree at outcome₃
      exact cleans (fun q other => by rw [outcome₃, find₂ q other]) reached
  | ok _ =>
      rw [← Program.reaches_done.mp reached]
      have put₂ : f₁.tree.writeFile dir (name ++ ".tmp." ++ digits) content = some f₂.tree := by
        simpa [FileCall.Outcome] using outcome₂
      have isFile : f₂.tree.find (dir ++ [name ++ ".tmp." ++ digits]) = some (.file content) := by
        rw [FileTree.find_put put₂, if_pos rfl]
      have find₃ := FileTree.find_rename_file outcome₃ isFile
      refine ⟨true, ⟨fun _ => ?_, fun q other noTemporary => .inl ?_⟩⟩
      · simp [find₃]
      · rw [find₃, if_neg (noTemporary digits), if_neg (other rfl), find₂ q (noTemporary digits)]

theorem saveLocked_reaches (located : l.mangaDir id = .ok dir)
    (reached : (Effects.saveLocked l id name content : Effect Answer Bool).Reaches
      Files.respond f f') : ∃ written, Rewritten dir name content written f.tree f'.tree := by
  simp only [Effects.saveLocked, located] at reached
  rcases Program.reaches_call.mp reached with rfl | ⟨choice, made, f₁, responded, reached⟩
  · exact ⟨false, rewritten_of_same fun _ _ => rfl⟩
  have makes := kept_mkdirAll responded
  cases made with
  | error why =>
      rw [← Program.reaches_done.mp reached]
      exact ⟨false, fun impossible => by contradiction, fun q _ _ => makes q⟩
  | ok _ =>
      rcases saveJSONAtomic_reaches reached with ⟨written, rewritten⟩
      exact ⟨written, rewritten.new,
        fun q other noTemporary => (makes q).trans (rewritten.kept q other noTemporary)⟩

/-- A save that has run has written the file exactly if it reports no error. -/
theorem saveLocked_rewrites (located : l.mangaDir id = .ok dir)
    (ran : (Effects.saveLocked l id name content : Effect Answer Bool).run Files.respond f choices =
      some (saved, f')) : Rewritten dir name content saved f.tree f'.tree := by
  simp only [Effects.saveLocked, located] at ran
  rcases Program.run_call.mp ran with ⟨choice, rest, made, f₁, rfl, responded, ran⟩
  have makes := kept_mkdirAll responded
  cases made with
  | error why =>
      rcases Program.run_done.mp ran with ⟨_, rfl, rfl⟩
      exact ⟨fun impossible => by contradiction, fun q _ _ => makes q⟩
  | ok _ =>
      refine ⟨?_, fun q other noTemporary => (makes q).trans (.inl ?_)⟩
      · rintro rfl
        have regular : ∀ digits : String,
            dir ++ [name] ≠ dir ++ [name ++ ".tmp." ++ digits] := by
          intro digits same
          exact temporaryName_ne digits (List.cons.inj (List.append_cancel_left same)).1.symm
        rw [saveJSONAtomic_find ran regular, if_pos ⟨rfl, rfl⟩]
      · rw [saveJSONAtomic_find ran noTemporary, if_neg fun both => other both.1 both.2]

end OneFile

/-! ## Several files -/

/-- The first files are written and the others are not. -/
structure PartlyWritten (dir : Path) (done rest : List (String × Document)) (before after : Disk) :
    Prop where
  new : ∀ file ∈ done, after.find (dir ++ [file.1]) = some (.file file.2)
  kept : ∀ q, (∀ file ∈ done, q ≠ dir ++ [file.1]) →
    (∀ file ∈ done ++ rest, ∀ digits : String, q ≠ dir ++ [file.1 ++ ".tmp." ++ digits]) →
    Kept dir q before after
  shelved : shelved after dir = done.foldl Shelved.write (shelved before dir)

section SeveralFiles

variable {l : Layout} {dir : Path} {id : String} {files done rest : List (String × Document)}
  {file : String × Document} {f f' : Files Document} {first middle last : Disk}
  {choices : List (FileChoice Answer)} {saved : Bool}

omit [DecidableEq Question] in
theorem Rewritten.none (rewritten : Rewritten dir file.1 file.2 false first last)
    (named : file.1 ∈ concernFiles) : PartlyWritten dir [] (file :: rest) first last where
  new _ member := by simp at member
  kept q _ noTemporary :=
    rewritten.kept q (fun impossible => by contradiction) (noTemporary file List.mem_cons_self)
  shelved := rewritten.shelved named

theorem Rewritten.cons (rewritten : Rewritten dir file.1 file.2 true first middle)
    (named : ∀ other ∈ file :: (done ++ rest), other.1 ∈ concernFiles)
    (distinct : file.1 ∉ done.map (·.1)) (others : PartlyWritten dir done rest middle last) :
    PartlyWritten dir (file :: done) rest first last where
  new := by
    rw [List.forall_mem_cons]
    refine ⟨?_, others.new⟩
    have stays := others.kept (dir ++ [file.1])
      (fun other member same => distinct (List.mem_map.mpr ⟨other, member, by simpa using same.symm⟩))
      (fun other member digits same => concernFiles_regular
        (named other (List.mem_cons_of_mem _ member)) (named file List.mem_cons_self) digits
        (by simpa using same))
    have long : ¬ dir ++ [file.1] <+: dir := fun isPrefix => by
      have short := isPrefix.length_le
      simp at short
    rw [stays.find long, rewritten.new rfl]
  kept q noTarget noTemporary :=
    (rewritten.kept q (fun _ => noTarget file List.mem_cons_self)
        (noTemporary file List.mem_cons_self)).trans
      (others.kept q (fun other member => noTarget other (List.mem_cons_of_mem _ member))
        fun other member => noTemporary other (List.mem_cons_of_mem _ member))
  shelved := by
    rw [others.shelved, rewritten.shelved (named file List.mem_cons_self), if_pos rfl,
      List.foldl_cons]

theorem PartlyWritten.refl (dir : Path) (rest : List (String × Document)) (disk : Disk) :
    PartlyWritten dir [] rest disk disk where
  new _ member := by simp at member
  kept q _ _ := .refl dir q disk
  shelved := rfl

/-- Files that are being written one after the other, when the process ends. -/
theorem saveFiles_reaches (located : l.mangaDir id = .ok dir)
    (named : ∀ file ∈ files, file.1 ∈ concernFiles) (distinct : (files.map (·.1)).Nodup)
    (reached : (Effects.saveFiles l id files : Effect Answer Bool).Reaches Files.respond f f') :
    ∃ done rest, files = done ++ rest ∧ PartlyWritten dir done rest f.tree f'.tree := by
  induction files generalizing f with
  | nil =>
      rw [← Program.reaches_done.mp reached]
      exact ⟨[], [], rfl, .refl dir [] f.tree⟩
  | cons file files induction =>
      rw [List.map_cons, List.nodup_cons] at distinct
      have stopped : ∀ {f₁ : Files Document} {written : Bool},
          Rewritten dir file.1 file.2 written f.tree f₁.tree →
          ∃ done rest, file :: files = done ++ rest ∧ PartlyWritten dir done rest f.tree f₁.tree := by
        intro f₁ written rewritten
        cases written with
        | false => exact ⟨[], file :: files, rfl, rewritten.none (named file List.mem_cons_self)⟩
        | true => exact ⟨[file], files, rfl, rewritten.cons named (by simp) (.refl dir files f₁.tree)⟩
      rcases Program.reaches_bind.mp reached with early | ⟨choices, written, f₁, ran, late⟩
      · rcases saveLocked_reaches located early with ⟨written, rewritten⟩
        exact stopped rewritten
      · have rewritten := saveLocked_rewrites located ran
        cases written with
        | false =>
            rw [← Program.reaches_done.mp late]
            exact stopped rewritten
        | true =>
            rcases induction (fun other member => named other (List.mem_cons_of_mem _ member))
              distinct.2 late with ⟨done, rest, rfl, others⟩
            rw [List.map_append, List.mem_append, not_or] at distinct
            exact ⟨file :: done, rest, rfl, rewritten.cons named distinct.1.1 others⟩

/-- Files that have been written one after the other, all of them exactly if no error is
reported. -/
theorem saveFiles_rewrites (located : l.mangaDir id = .ok dir)
    (named : ∀ file ∈ files, file.1 ∈ concernFiles) (distinct : (files.map (·.1)).Nodup)
    (ran : (Effects.saveFiles l id files : Effect Answer Bool).run Files.respond f choices =
      some (saved, f')) :
    ∃ done rest, files = done ++ rest ∧ PartlyWritten dir done rest f.tree f'.tree ∧
      (saved = true ↔ rest = []) := by
  induction files generalizing f choices with
  | nil =>
      rcases Program.run_done.mp ran with ⟨_, rfl, rfl⟩
      exact ⟨[], [], rfl, .refl dir [] f.tree, iff_of_true rfl rfl⟩
  | cons file files induction =>
      rw [List.map_cons, List.nodup_cons] at distinct
      rcases Program.run_bind.mp ran with ⟨_, _, written, f₁, _, ran₁, ran₂⟩
      have rewritten := saveLocked_rewrites located ran₁
      cases written with
      | false =>
          rcases Program.run_done.mp ran₂ with ⟨_, rfl, rfl⟩
          exact ⟨[], file :: files, rfl, rewritten.none (named file List.mem_cons_self), by simp⟩
      | true =>
          rcases induction (fun other member => named other (List.mem_cons_of_mem _ member))
            distinct.2 ran₂ with ⟨done, rest, rfl, others, ended⟩
          rw [List.map_append, List.mem_append, not_or] at distinct
          exact ⟨file :: done, rest, rfl, rewritten.cons named distinct.1.1 others, ended⟩

omit [DecidableEq Question] in
theorem Effects.saveFiles_singleton (l : Layout) (id : String) (file : String × Document) :
    (saveFiles l id [file] : Effect Answer Bool) = saveLocked l id file.1 file.2 := by
  have tail : (fun saved => if saved = true then (saveFiles l id [] : Effect Answer Bool)
      else pure false) = .done := by
    funext saved
    cases saved <;> rfl
  change (saveLocked l id file.1 file.2 >>= fun saved =>
    if saved = true then saveFiles l id [] else pure false) = _
  rw [tail, Program.bind_done]

end SeveralFiles

/-! ## A manga -/

section SaveManga

variable {l : Layout} {dir : Path} {id : String} {info : Manga} {now : Time}
  {f f' : Files Document}

omit [DecidableEq Question] in
theorem mangaFiles_named (info : Manga) (now : Time) :
    ∀ file ∈ l.mangaFiles info now, file.1 ∈ concernFiles := by
  simp [Layout.mangaFiles, concernFiles]

/-- `GetManga` succeeds. -/
def Shelved.Readable (s : Shelved) : Prop :=
  (∃ metadata, s.metadata = .value metadata) ∧ s.userState ≠ .unreadable ∧ s.bindings ≠ .unreadable

theorem Shelved.manga_isSome {s : Shelved} : (s.manga id).isSome = true ↔ s.Readable := by
  rcases s with ⟨metadata, userState, bindings⟩
  cases metadata <;> cases userState <;> cases bindings <;>
    simp [Shelved.manga, Shelved.Readable, Held.read]

theorem Shelved.Readable.write {s : Shelved} (readable : s.Readable) {file : String × Document}
    (member : file ∈ l.mangaFiles info now) : (s.write file).Readable := by
  rcases readable with ⟨⟨metadata, isValue⟩, userState, bindings⟩
  simp only [Layout.mangaFiles, List.mem_cons, List.not_mem_nil, or_false] at member
  rcases member with rfl | rfl | rfl <;>
    simp [Shelved.Readable, Shelved.write, Held.ofDocument, Document.metadata?,
      Document.userState?, Document.bindings?, isValue, userState, bindings]

theorem Shelved.Readable.writes {done : List (String × Document)} {s : Shelved}
    (readable : s.Readable) (members : ∀ file ∈ done, file ∈ l.mangaFiles info now) :
    (done.foldl Shelved.write s).Readable := by
  induction done generalizing s with
  | nil => exact readable
  | cons file done induction =>
      rw [List.forall_mem_cons] at members
      exact induction (readable.write members.1) members.2

/-- When the process ends at any call of a save, the files of the manga are whole, the new ones
come before the old ones, and a manga that could be read can still be read. -/
theorem saveManga_interrupted (located : l.mangaDir id = .ok dir)
    (reached : (Effects.saveManga l id info now : Effect Answer Bool).Reaches Files.respond f f') :
    ∃ done rest, l.mangaFiles info now = done ++ rest ∧ PartlyWritten dir done rest f.tree f'.tree ∧
      ((l.getManga f.tree id).isSome = true → (l.getManga f'.tree id).isSome = true) := by
  rw [Effects.saveManga_eq] at reached
  rcases saveFiles_reaches located (mangaFiles_named info now) (by simp [Layout.mangaFiles]) reached
    with ⟨done, rest, parts, partly⟩
  refine ⟨done, rest, parts, partly, ?_⟩
  rw [getManga_shelved located, getManga_shelved located, Shelved.manga_isSome,
    Shelved.manga_isSome, partly.shelved]
  exact fun readable => readable.writes fun file member =>
    parts ▸ List.mem_append_left rest member

end SaveManga

/-- The process ends when the user state is in its temporary file. -/
theorem saveManga_interrupted_renamed :
    ∃ f', saveRenamed.after Files.respond (Files.ofTree storedManga)
        (List.replicate 7 (.grant "")) = some f' ∧
      ∃ done rest, shelf.mangaFiles renamedManga Time.zero = done ++ rest ∧
        PartlyWritten ["library", "m"] done rest storedManga f'.tree ∧
        ((shelf.getManga storedManga "m").isSome = true →
          (shelf.getManga f'.tree "m").isSome = true) := by
  have located : shelf.mangaDir "m" = .ok ["library", "m"] := by decide +kernel
  have went : (saveRenamed.after Files.respond (Files.ofTree storedManga)
      (List.replicate 7 (.grant ""))).isSome = true := by decide +kernel
  rcases Option.isSome_iff_exists.mp went with ⟨f', left⟩
  exact ⟨f', left, saveManga_interrupted located (Program.Reaches.of_after left)⟩

end Kiyomi.Library
