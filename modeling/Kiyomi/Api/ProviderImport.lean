import Kiyomi.Api.ConcernHandler
import Kiyomi.Library.SaveFrames
import Kiyomi.Queue.PullFiles

namespace Kiyomi.Api

open Go Library Queue

/-! # Importing a manga from a provider

`importProviderManga` writes the three files of the manga whose id is the remote id, and then a
manifest for each chapter, whatever is there. -/

structure ImportRequest where
  providerID : String
  remoteID : String
  userStatus : String

/-- What `Details` gives, as far as it is imported. -/
structure ProviderMetadata where
  title : String
  aliases : Option (List String)
  coverURL : String
  synopsis : String
  authors : Option (List String)
  artists : Option (List String)
  tags : Option (List String)
  readingMode : String
  url : String
  publishers : Option (List String)
  releaseYear : Int
  startDate : String
  endDate : String
  country : String

inductive ImportQuestion
  /-- `getProvider`, with the name of the metadata provider. -/
  | getProvider (providerID : String)
  | details (providerID remoteID : String)
  | fetchChapters (providerID remoteID : String)
  /-- The chapters that are started before the request is cancelled, in the order in which they
  get the lock. -/
  | started (chapters : Nat)
  | now
  deriving DecidableEq

abbrev ImportQuestion.Answer : ImportQuestion → Type
  | .getProvider _ => Option String
  | .details .. => Option ProviderMetadata
  | .fetchChapters .. => Option (List Chapter)
  | .started _ => List Nat
  | .now => Time

abbrev ImportEffect := Effect ImportQuestion.Answer

def askUpstream (question : ImportQuestion) : ImportEffect question.Answer :=
  request (FileCall.ask question)

/-- What an import has stored, for the statements about it. -/
structure ImportRecord where
  addedAt : Time
  /-- The chapters that were saved. -/
  chapters : List (String × ChapterMeta)

inductive ImportReply
  | created (record : ImportRecord)
  | badRequest
  | providerError
  | failed

namespace ImportRequest

variable (body : ImportRequest)

def pair : String × String := (body.providerID, body.remoteID)

def metadata (providerName : String) (details : ProviderMetadata) : MangaMetadata :=
  let label := if providerName ≠ "" then providerName else body.providerID
  { MangaMetadata.zero with
    title := details.title
    aliases := details.aliases
    description := details.synopsis
    authors := details.authors
    artists := details.artists
    tags := details.tags
    publishers := details.publishers
    releaseYear := details.releaseYear
    startDate := details.startDate
    endDate := details.endDate
    country := details.country
    coverURL := details.coverURL
    externalLinks :=
      if details.url ≠ "" then some [⟨body.providerID, label, details.url⟩] else none }

def bindings (details : ProviderMetadata) (now : Time) : MangaBindings where
  content := some
    { ContentSource.zero with
      providerID := body.providerID
      providerMangaID := body.remoteID
      readingMode := details.readingMode
      lastSyncedAt := now }
  providers := [⟨body.providerID, body.remoteID, details.title⟩]

def userState : UserState := { UserState.zero with status := body.userStatus }

end ImportRequest

variable (l : Layout)

/-- Save the chapters, whatever becomes of each of them; the result is what was saved. -/
def saveChapters (mangaID providerID : String) :
    List (String × ChapterMeta) → ImportEffect (List (String × ChapterMeta))
  | [] => pure []
  | chapter :: chapters => do
      let saved ← Effects.saveChapter l mangaID providerID chapter.1 chapter.2
      let others ← saveChapters mangaID providerID chapters
      pure (if saved then chapter :: others else others)

/-- The part of `importProviderManga` about chapters. -/
def importChapters (body : ImportRequest) : ImportEffect (List (String × ChapterMeta)) := do
  match ← askUpstream (.fetchChapters body.providerID body.remoteID) with
  | none => pure []
  | some [] => pure []
  | some (first :: others) =>
      let chapters := first :: others
      let now ← askUpstream .now
      let started ← askUpstream (.started chapters.length)
      saveChapters l body.remoteID body.providerID
        ((started.dedup.filterMap (chapters[·]?)).map fun ch =>
          (ch.id, newChapterMeta body.providerID ch now))

def importProviderManga (body : ImportRequest) : ImportEffect ImportReply := do
  if body.providerID = "" ∨ body.remoteID = "" then pure .badRequest
  else if body.userStatus ≠ "" ∧ isValidUserStatus body.userStatus = false then pure .badRequest
  else
    match ← askUpstream (.getProvider body.providerID) with
    | none => pure .badRequest
    | some providerName =>
        match ← askUpstream (.details body.providerID body.remoteID) with
        | none => pure .providerError
        | some details =>
            let now ← askUpstream .now
            if !(← Effects.saveMetadata l body.remoteID (body.metadata providerName details)) then
              pure .failed
            else if !(← Effects.saveBindings l body.remoteID (body.bindings details now)) then
              pure .failed
            else
              let savedAt ← askUpstream .now
              if !(← Effects.saveUserStateLocked l body.remoteID body.userState savedAt) then
                pure .failed
              else
                let chapters ← importChapters l body
                pure (.created ⟨(body.userState.saved savedAt).addedAt, chapters⟩)

/-! ## Entries -/

/-- The pair is that of the content or of a provider. -/
def boundTo (b : MangaBindings) (pair : String × String) : Prop :=
  b.content.map ContentSource.pair = some pair ∨ b.binds pair = true

/-- Everything of a user's state but the status and the time of the last change. -/
def ownState (u : UserState) : UserState := { u with status := "", updatedAt := Time.zero }

/-- How far a chapter has been read. -/
def readingProgress (chMeta : ChapterMeta) : Bool × Int × Time :=
  (chMeta.isRead, chMeta.lastReadPage, chMeta.lastReadAt)

/-- The manifest of a chapter below the directory of a manga. -/
def storedChapter (disk : Disk) (dir : Path) (providerID chapterID : String) : Option ChapterMeta :=
  match disk.readFile (dir ++ [providerID, chapterID, "meta.json"]) with
  | some (.chapter chMeta) => some chMeta
  | _ => none

/-- An id under which the library has a manga. -/
structure Entry (disk : Disk) (mangaID : String) (dir : Path) : Prop where
  located : l.mangaDir mangaID = .ok dir
  listed : disk.find (dir ++ ["metadata.json"]) ≠ none
  readable : (l.getMetadata disk mangaID).isSome = true

/-- The manga has a binding to the pair. -/
def IsBound (disk : Disk) (mangaID : String) (pair : String × String) : Prop :=
  ∃ b, l.getBindings disk mangaID = some b ∧ boundTo b pair

/-- The manga is as it was. -/
structure Untouched (before after : Disk) (mangaID : String) (dir : Path) : Prop where
  metadata : l.getMetadata after mangaID = l.getMetadata before mangaID
  bindings : l.getBindings after mangaID = l.getBindings before mangaID
  userState : l.getUserState after mangaID = l.getUserState before mangaID
  chapters : ∀ providerID chapterID,
    storedChapter after dir providerID chapterID = storedChapter before dir providerID chapterID

/-- What belongs to the user, and the bindings to other pairs, are as they were. -/
structure KeepsUserData (pair : String × String) (before after : Disk) (mangaID : String)
    (dir : Path) : Prop where
  userState : ∀ u, l.getUserState before mangaID = some u →
    ∃ u', l.getUserState after mangaID = some u' ∧ ownState u' = ownState u
  progress : ∀ providerID chapterID chMeta,
    storedChapter before dir providerID chapterID = some chMeta →
      ∃ chMeta', storedChapter after dir providerID chapterID = some chMeta' ∧
        readingProgress chMeta' = readingProgress chMeta
  bindings : ∀ other, other ≠ pair → IsBound l before mangaID other → IsBound l after mangaID other

/-- Nothing is lost over an import of the pair. -/
def ClobbersNothing (pair : String × String) (before after : Disk) : Prop :=
  ∀ mangaID dir, Entry l before mangaID dir →
    (¬ IsBound l before mangaID pair → Untouched l before after mangaID dir) ∧
      (IsBound l before mangaID pair → KeepsUserData l pair before after mangaID dir)

/-- The manifest that was saved last in a directory. -/
def lastManifest (mangaID providerID : String) (chapters : List (String × ChapterMeta)) (dir : Path) :
    Option ChapterMeta :=
  (chapters.reverse.find? fun chapter =>
    decide (l.providerChapterDir mangaID providerID chapter.1 = .ok dir)).map (·.2.saved)

/-- When an import loses nothing: a manga in its directory is bound to the pair only, has not been
read or rated and was added at the same moment; no directory is made in the place of a file that
another manga does not have yet; and no manifest is saved among the chapters of a manga that is not
bound to the pair, unless it is the same, nor over the progress of one that is. -/
structure FindsNothing (body : ImportRequest) (before : Disk)
    (steps : List (FileStep ImportQuestion.Answer)) (record : ImportRecord) : Prop where
  target : ∀ mangaID dir, l.mangaDir body.remoteID = .ok dir → Entry l before mangaID dir →
    IsBound l before mangaID body.pair ∧
      (∀ other, IsBound l before mangaID other → other = body.pair) ∧
      ∀ u, l.getUserState before mangaID = some u →
        ownState u = { UserState.zero with addedAt := record.addedAt }
  elsewhere : ∀ mangaID dir, l.mangaDir body.remoteID ≠ .ok dir → Entry l before mangaID dir →
    ∀ name ∈ ["bindings.json", "user_state.json"],
      ∀ step ∈ steps, ¬ MakesDirectory (dir ++ [name]) step
  chapters : ∀ mangaID dir providerID chapterID chMeta, Entry l before mangaID dir →
    lastManifest l body.remoteID body.providerID record.chapters (dir ++ [providerID, chapterID]) =
        some chMeta →
      (¬ IsBound l before mangaID body.pair →
        storedChapter before dir providerID chapterID = some chMeta) ∧
      (IsBound l before mangaID body.pair →
        ∀ old, storedChapter before dir providerID chapterID = some old →
          readingProgress old = (false, 0, Time.zero))

/-! ## What is read after an import -/

variable {l : Layout}

/-- A concern file from the node at its path. -/
def readNode {α : Type} (zero : α) (decode : Document → Option α) : Option (Node Document) → Option α
  | none => some zero
  | some (.file document) => decode document
  | some .directory => none

def asMetadata : Document → Option MangaMetadata
  | .metadata m => some m
  | _ => none

def asBindings : Document → Option MangaBindings
  | .bindings b => some b
  | _ => none

def asUserState : Document → Option UserState
  | .userState u => some u
  | _ => none

/-- Beside a manga's metadata, a file that is not there is not there for the system either. -/
theorem readConcern_of_listed {α : Type} {disk : Disk} {dir : Path} {name : String}
    (listed : disk.find (dir ++ ["metadata.json"]) ≠ none) (zero : α) (decode : Document → Option α) :
    Layout.readConcern disk (dir ++ [name]) zero decode =
      readNode zero decode (disk.find (dir ++ [name])) := by
  have isDirectory : disk.find dir = some .directory := by
    rcases Option.ne_none_iff_exists'.mp listed with ⟨node, found⟩
    exact disk.parent found
  rw [Layout.readConcern]
  cases found : disk.find (dir ++ [name]) with
  | none =>
      rw [if_pos]
      · rfl
      simp only [Layout.notExist, found, decide_true, Bool.true_and, List.all_eq_true,
        List.mem_inits]
      intro upper above
      rcases List.prefix_concat_iff.mp above with rfl | above
      · simp [FileTree.readFile, found]
      · simp [FileTree.readFile, disk.directory_above above isDirectory]
  | some node =>
      rw [if_neg (by simp [Layout.notExist, found]), FileTree.readFile, found]
      cases node with
      | file document => rfl
      | directory => rfl

/-! ## What an import writes -/

/-- The files of a manga. -/
def concernNames : List String := ["metadata.json", "bindings.json", "user_state.json"]

/-- A part of an import, with the files that it writes in the manga's directory and the manifest
that it leaves in each directory. -/
structure Phase (target : Path) (files : List (String × Document)) (manifest : Path → Option ChapterMeta)
    (f f' : Files Document) (steps : List (FileStep ImportQuestion.Answer)) : Prop where
  own : ∀ file ∈ files, f'.tree.find (target ++ [file.1]) = some (.file file.2)
  kept : ∀ dir, ∀ name ∈ concernNames, (dir = target → name ∉ files.map (·.1)) →
    Steady (dir ++ [name]) f f' steps
  manifests : ∀ dir, f'.tree.readFile (dir ++ ["meta.json"]) =
    ((manifest dir).map .chapter).or (f.tree.readFile (dir ++ ["meta.json"]))

section Phases

variable {target : Path} {files files' : List (String × Document)}
  {manifest manifest' : Path → Option ChapterMeta} {f f₁ f' : Files Document}
  {before after : List (FileStep ImportQuestion.Answer)}
  {choices : List (FileChoice ImportQuestion.Answer)}

theorem Phase.append (first : Phase target files manifest f f₁ before)
    (second : Phase target files' manifest' f₁ f' after)
    (apart : ∀ file ∈ files, file.1 ∈ concernNames ∧ file.1 ∉ files'.map (·.1)) :
    Phase target (files ++ files') (fun dir => (manifest' dir).or (manifest dir)) f f'
      (before ++ after) where
  own file member := by
    rcases List.mem_append.mp member with isFirst | isSecond
    · rcases apart file isFirst with ⟨named, unwritten⟩
      exact (second.kept target file.1 named fun _ => unwritten).file (first.own file isFirst)
    · exact second.own file isSecond
  kept dir name named other := by
    rw [List.map_append, List.mem_append, not_or] at other
    exact (first.kept dir name named fun same => (other same).1).append
      (second.kept dir name named fun same => (other same).2)
  manifests dir := by
    rw [second.manifests, first.manifests]
    cases manifest' dir with
    | some _ => rfl
    | none => rfl

theorem Phase.nil : Phase target [] (fun _ => none) f f [] where
  own := by simp
  kept _ _ _ _ := .nil
  manifests _ := by simp

theorem phase_ask {question : ImportQuestion} {choice : FileChoice ImportQuestion.Answer} :
    Phase target [] (fun _ => none) f f [(f, .ask question, choice)] where
  own := by simp
  kept dir name _ _ := by
    refine .kept (List.forall_mem_singleton.mpr ?_) rfl
    rintro ⟨_, _, _, _, isMkdir, _⟩
    cases isMkdir
  manifests _ := by simp

/-- A question before a part of an import. -/
theorem Phase.ask (phase : Phase target files manifest f f' after) (question : ImportQuestion)
    (choice : FileChoice ImportQuestion.Answer) :
    Phase target files manifest f f' ((f, .ask question, choice) :: after) := by
  simpa using phase_ask.append phase (by simp)

/-- The names are no names of temporary files. -/
theorem ne_temporary {name base : String} (named : name ∈ "meta.json" :: concernNames)
    (based : base ∈ "meta.json" :: concernNames) (dir other : Path) (digits : String) :
    dir ++ [name] ≠ other ++ [base ++ ".tmp." ++ digits] := by
  have apart : ∀ name ∈ "meta.json" :: concernNames, ∀ base ∈ "meta.json" :: concernNames,
      ¬ (base ++ ".tmp.").toList <+: name.toList := by decide +kernel
  intro same
  have equal := (List.cons.inj (List.append_inj_right' same rfl)).1
  refine apart name named base based ?_
  simp [equal]

theorem phase_saveLocked {id name : String} {content : Document} (named : name ∈ concernNames)
    (located : l.mangaDir id = .ok target)
    (ran : (Effects.saveLocked l id name content : ImportEffect Bool).run Files.respond f choices =
      some (true, f')) :
    Phase target [(name, content)] (fun _ => none) f f'
      ((Effects.saveLocked l id name content : ImportEffect Bool).steps Files.respond f choices) where
  own := List.forall_mem_singleton.mpr (saveLocked_done located ran)
  kept dir other isConcern apart := by
    refine saveLocked_steady located ?_ ?_ ran
    · intro same
      rcases List.append_inj' same rfl with ⟨sameDir, sameName⟩
      exact apart sameDir (by simpa using sameName)
    · exact ne_temporary (List.mem_cons_of_mem _ isConcern) (List.mem_cons_of_mem _ named) dir target
  manifests dir := by
    refine (saveLocked_steady located ?_ ?_ ran).readFile.trans (by simp)
    · intro same
      rw [← (List.cons.inj (List.append_inj_right' same rfl)).1] at named
      exact absurd named (by decide)
    · exact ne_temporary List.mem_cons_self (List.mem_cons_of_mem _ named) dir target

theorem phase_saveChapter {mangaID providerID chapterID : String} {chMeta : ChapterMeta}
    {saved : Bool}
    (ran : (Effects.saveChapter l mangaID providerID chapterID chMeta : ImportEffect Bool).run
      Files.respond f choices = some (saved, f')) :
    Phase target [] (fun dir =>
        if saved && decide (l.providerChapterDir mangaID providerID chapterID = .ok dir) then
          some chMeta.saved
        else none) f f'
      ((Effects.saveChapter l mangaID providerID chapterID chMeta : ImportEffect Bool).steps
        Files.respond f choices) where
  own := by simp
  kept dir name named _ := by
    refine saveChapter_steady (fun _ other _ same => ?_) ?_ ran
    · rw [(List.cons.inj (List.append_inj_right' same rfl)).1] at named
      exact absurd named (by decide)
    · exact ne_temporary (List.mem_cons_of_mem _ named) List.mem_cons_self dir
  manifests dir := by
    split
    · rename_i both
      rw [Bool.and_eq_true, decide_eq_true_eq] at both
      rcases both with ⟨rfl, located⟩
      rcases saveChapter_done ran with ⟨dir', located', found⟩
      rw [located] at located'
      cases located'
      simp [FileTree.readFile, found]
    · rename_i other
      refine (saveChapter_steady (fun isSaved dir' located same => ?_) ?_ ran).readFile.trans (by simp)
      · rw [isSaved, List.append_cancel_right same, located] at other
        simp at other
      · exact ne_temporary List.mem_cons_self List.mem_cons_self dir

theorem lastManifest_cons {mangaID providerID : String} (chapter : String × ChapterMeta)
    (chapters : List (String × ChapterMeta)) (dir : Path) :
    lastManifest l mangaID providerID (chapter :: chapters) dir =
      (lastManifest l mangaID providerID chapters dir).or
        (if decide (l.providerChapterDir mangaID providerID chapter.1 = .ok dir) then
          some chapter.2.saved
        else none) := by
  simp only [lastManifest, List.reverse_cons, List.find?_append, List.find?_singleton]
  cases found : chapters.reverse.find? fun chapter =>
      decide (l.providerChapterDir mangaID providerID chapter.1 = .ok dir) with
  | some last => simp
  | none => simp

theorem phase_saveChapters {mangaID providerID : String} {chapters saved : List (String × ChapterMeta)}
    (ran : (saveChapters l mangaID providerID chapters).run Files.respond f choices =
      some (saved, f')) :
    Phase target [] (lastManifest l mangaID providerID saved) f f'
      ((saveChapters l mangaID providerID chapters).steps Files.respond f choices) := by
  induction chapters generalizing f choices saved with
  | nil =>
      rcases Program.run_done.mp ran with ⟨rfl, rfl, rfl⟩
      exact .nil
  | cons chapter chapters induction =>
      rcases Program.run_bind.mp ran with ⟨early, late, isSaved, f₁, rfl, ranFirst, ran⟩
      rcases Program.run_bind.mp ran with ⟨early', late', others, f₂, rfl, ranOthers, ran⟩
      rcases Program.run_done.mp ran with ⟨rfl, rfl, rfl⟩
      have steps : (saveChapters l mangaID providerID (chapter :: chapters)).steps Files.respond f
          (early ++ (early' ++ [])) =
          (Effects.saveChapter l mangaID providerID chapter.1 chapter.2 :
            ImportEffect Bool).steps Files.respond f early ++
          ((saveChapters l mangaID providerID chapters).steps Files.respond f₁ early' ++ []) :=
        (Program.steps_bind ranFirst).trans (congrArg _ (Program.steps_bind ranOthers))
      have one := @phase_saveChapter l target _ _ _ _ _ _ _ _ ranFirst
      have whole := one.append (induction ranOthers) (by simp)
      have sameManifests : lastManifest l mangaID providerID
          (if isSaved then chapter :: others else others) = fun dir =>
            (lastManifest l mangaID providerID others dir).or
              (if isSaved && decide (l.providerChapterDir mangaID providerID chapter.1 = .ok dir) then
                some chapter.2.saved
              else none) := by
        funext dir
        cases isSaved with
        | true => simpa using lastManifest_cons chapter others dir
        | false => simp
      rw [steps, List.append_nil, sameManifests]
      exact whole

theorem phase_importChapters {body : ImportRequest} {saved : List (String × ChapterMeta)}
    (ran : (importChapters l body).run Files.respond f choices = some (saved, f')) :
    Phase target [] (lastManifest l body.remoteID body.providerID saved) f f'
      ((importChapters l body).steps Files.respond f choices) := by
  generalize traced : (importChapters l body).steps Files.respond f choices = trace
  unfold importChapters at ran traced
  rcases run_ask.mp ran with ⟨fetched, rest, rfl, ran₁⟩
  rcases Program.steps_cons (Files.respond_answer f _ fetched) traced with ⟨later, rfl, traced₁⟩
  refine Phase.ask ?_ _ _
  rcases fetched with _ | _ | ⟨first, others⟩
  · rcases Program.run_done.mp ran₁ with ⟨rfl, rfl, rfl⟩
    cases traced₁
    exact .nil
  · rcases Program.run_done.mp ran₁ with ⟨rfl, rfl, rfl⟩
    cases traced₁
    exact .nil
  · rcases run_ask.mp ran₁ with ⟨now, rest, rfl, ran₂⟩
    rcases Program.steps_cons (Files.respond_answer f _ now) traced₁ with ⟨later, rfl, traced₂⟩
    rcases run_ask.mp ran₂ with ⟨started, rest, rfl, ran₃⟩
    rcases Program.steps_cons (Files.respond_answer f _ started) traced₂ with ⟨later, rfl, traced₃⟩
    cases traced₃
    exact ((phase_saveChapters ran₃).ask _ _).ask _ _

theorem saveChapters_subset {mangaID providerID : String}
    {chapters saved : List (String × ChapterMeta)}
    (ran : (saveChapters l mangaID providerID chapters).run Files.respond f choices =
      some (saved, f')) : saved ⊆ chapters := by
  induction chapters generalizing f choices saved with
  | nil =>
      rcases Program.run_done.mp ran with ⟨_, rfl, _⟩
      simp
  | cons chapter chapters induction =>
      rcases Program.run_bind.mp ran with ⟨_, _, isSaved, _, _, _, ran⟩
      rcases Program.run_bind.mp ran with ⟨_, _, others, _, _, ranOthers, ran⟩
      rcases Program.run_done.mp ran with ⟨_, rfl, rfl⟩
      have inner := induction ranOthers
      cases isSaved with
      | true => exact List.cons_subset_cons chapter inner
      | false => exact List.subset_cons_of_subset chapter inner

/-- The chapters of an import have not been read. -/
theorem importChapters_unread {body : ImportRequest} {saved : List (String × ChapterMeta)}
    (ran : (importChapters l body).run Files.respond f choices = some (saved, f')) :
    ∀ chapter ∈ saved, readingProgress chapter.2.saved = (false, 0, Time.zero) := by
  unfold importChapters at ran
  rcases run_ask.mp ran with ⟨fetched, _, _, ran⟩
  rcases fetched with _ | _ | ⟨first, others⟩
  · rcases Program.run_done.mp ran with ⟨_, rfl, _⟩
    simp
  · rcases Program.run_done.mp ran with ⟨_, rfl, _⟩
    simp
  · rcases run_ask.mp ran with ⟨now, _, _, ran⟩
    rcases run_ask.mp ran with ⟨started, _, _, ran⟩
    intro chapter member
    rcases List.mem_map.mp (saveChapters_subset ran member) with ⟨ch, _, rfl⟩
    rfl

end Phases

/-- What is known after an import that was successful. -/
structure Imported (l : Layout) (body : ImportRequest) (target : Path) (f f' : Files Document)
    (steps : List (FileStep ImportQuestion.Answer)) (record : ImportRecord) : Prop where
  located : l.mangaDir body.remoteID = .ok target
  written : ∃ m b u, (∀ pair, boundTo b pair ↔ pair = body.pair) ∧
    ownState u = { UserState.zero with addedAt := record.addedAt } ∧
    Phase target [("metadata.json", .metadata m), ("bindings.json", .bindings b),
      ("user_state.json", .userState u)]
      (lastManifest l body.remoteID body.providerID record.chapters) f f' steps
  unread : ∀ dir chMeta,
    lastManifest l body.remoteID body.providerID record.chapters dir = some chMeta →
      readingProgress chMeta = (false, 0, Time.zero)

theorem importProviderManga_imported {body : ImportRequest} {f f' : Files Document}
    {choices : List (FileChoice ImportQuestion.Answer)} {record : ImportRecord}
    (ran : (importProviderManga l body).run Files.respond f choices = some (.created record, f')) :
    ∃ target, Imported l body target f f'
      ((importProviderManga l body).steps Files.respond f choices) record := by
  generalize traced : (importProviderManga l body).steps Files.respond f choices = trace
  unfold importProviderManga at ran traced
  split at ran
  · cases (Program.run_done.mp ran).2.1
  split at ran
  · cases (Program.run_done.mp ran).2.1
  rename_i complete valid
  rw [if_neg complete, if_neg valid] at traced
  rcases run_ask.mp ran with ⟨found, rest, rfl, ran₁⟩
  rcases Program.steps_cons (Files.respond_answer f _ found) traced with ⟨later, rfl, traced₁⟩
  cases found with
  | none => cases (Program.run_done.mp ran₁).2.1
  | some providerName =>
  rcases run_ask.mp ran₁ with ⟨details, rest, rfl, ran₂⟩
  rcases Program.steps_cons (Files.respond_answer f _ details) traced₁ with ⟨later, rfl, traced₂⟩
  cases details with
  | none => cases (Program.run_done.mp ran₂).2.1
  | some details =>
  rcases run_ask.mp ran₂ with ⟨now, rest, rfl, ran₃⟩
  rcases Program.steps_cons (Files.respond_answer f _ now) traced₂ with ⟨later, rfl, traced₃⟩
  simp only [Program.bind] at ran₃ traced₃
  have isLocated : ∃ target, l.mangaDir body.remoteID = .ok target := by
    cases located : l.mangaDir body.remoteID with
    | ok target => exact ⟨target, rfl⟩
    | error refused =>
        rcases Program.run_bind.mp ran₃ with ⟨_, _, saved, _, _, saves, ended⟩
        simp only [Effects.saveMetadata, located] at saves
        rcases (Program.run_done.mp saves).2.1 with rfl
        cases (Program.run_done.mp ended).2.1
  rcases isLocated with ⟨target, located⟩
  rcases Program.run_bind.mp ran₃ with ⟨early₁, rest, saved₁, f₁, rfl, saves₁, ran₄⟩
  replace traced₃ := (Program.steps_bind saves₁).symm.trans traced₃
  cases saved₁ with
  | false => cases (Program.run_done.mp ran₄).2.1
  | true =>
  rcases Program.run_bind.mp ran₄ with ⟨early₂, rest, saved₂, f₂, rfl, saves₂, ran₅⟩
  replace traced₃ := (congrArg _ (Program.steps_bind saves₂)).symm.trans traced₃
  cases saved₂ with
  | false => cases (Program.run_done.mp ran₅).2.1
  | true =>
  generalize lastTraced : Program.steps _ _ f₂ _ = last at traced₃
  rcases run_ask.mp ran₅ with ⟨savedAt, rest, rfl, ran₆⟩
  rcases Program.steps_cons (Files.respond_answer f₂ _ savedAt) lastTraced with ⟨ended, rfl, traced₄⟩
  simp only [Program.bind] at ran₆ traced₄
  rcases Program.run_bind.mp ran₆ with ⟨early₃, rest, saved₃, f₃, rfl, saves₃, ran₇⟩
  replace traced₄ := (Program.steps_bind saves₃).symm.trans traced₄
  cases saved₃ with
  | false => cases (Program.run_done.mp ran₇).2.1
  | true =>
  rcases Program.run_bind.mp ran₇ with ⟨early₄, rest, chapters, f₄, rfl, saves₄, ran₈⟩
  replace traced₄ := (congrArg _ (Program.steps_bind saves₄)).symm.trans traced₄
  rcases Program.run_done.mp ran₈ with ⟨rfl, same, rfl⟩
  cases same
  have metadata := phase_saveLocked (by decide) located saves₁
  have bindings := phase_saveLocked (by decide) located saves₂
  have userState := phase_saveLocked (by decide) located saves₃
  have manifests := @phase_importChapters _ target _ _ _ _ _ saves₄
  have last := userState.append manifests (by simp [concernNames])
  have whole := metadata.append (bindings.append (last.ask .now (.answer .now savedAt))
    (by simp [concernNames])) (by simp [concernNames])
  replace traced₄ := (congrArg _ (List.append_nil _)).symm.trans traced₄
  rw [← traced₃, ← traced₄]
  refine ⟨target, located, ⟨(body.metadata providerName details).saved l.toLower,
    (SavedBindings.save (body.bindings details now)).bindings, body.userState.saved savedAt,
    ?_, rfl, ?_⟩, ?_⟩
  · intro pair
    have distinct : (bindingKeys (body.bindings details now).providers).Nodup := by
      simp [bindingKeys, ImportRequest.bindings]
    rw [SavedBindings.save_of_distinct distinct, boundTo]
    constructor
    · rintro (content | provider)
      · exact (Option.some.inj content).symm
      · have same : (body.providerID, body.remoteID) = pair := by
          simpa [MangaBindings.binds, ImportRequest.bindings, ProviderRef.pair] using provider
        exact same.symm
    · rintro rfl
      exact .inl rfl
  · refine Phase.ask (Phase.ask (Phase.ask ?_ _ _) _ _) _ _
    simp only [List.singleton_append, List.append_nil, Option.or_none] at whole
    exact whole
  · intro dir chMeta found
    rcases Option.map_eq_some_iff.mp found with ⟨chapter, last, rfl⟩
    exact importChapters_unread saves₄ chapter (List.mem_reverse.mp (List.mem_of_find?_eq_some last))

/-! ## What is kept -/

section Kept

variable {body : ImportRequest} {target : Path} {before : Disk} {f' : Files Document}
  {steps : List (FileStep ImportQuestion.Answer)} {record : ImportRecord} {mangaID : String}
  {dir : Path}

theorem getMetadata_of_listed {disk : Disk} (located : l.mangaDir mangaID = .ok dir)
    (listed : disk.find (dir ++ ["metadata.json"]) ≠ none) :
    l.getMetadata disk mangaID =
      readNode MangaMetadata.zero asMetadata (disk.find (dir ++ ["metadata.json"])) := by
  rw [Layout.getMetadata, located]
  exact readConcern_of_listed listed _ _

theorem getBindings_of_listed {disk : Disk} (located : l.mangaDir mangaID = .ok dir)
    (listed : disk.find (dir ++ ["metadata.json"]) ≠ none) :
    l.getBindings disk mangaID =
      readNode SavedBindings.missing.bindings asBindings (disk.find (dir ++ ["bindings.json"])) := by
  rw [Layout.getBindings, located]
  exact readConcern_of_listed listed _ _

theorem getUserState_of_listed {disk : Disk} (located : l.mangaDir mangaID = .ok dir)
    (listed : disk.find (dir ++ ["metadata.json"]) ≠ none) :
    l.getUserState disk mangaID =
      readNode UserState.zero asUserState (disk.find (dir ++ ["user_state.json"])) := by
  rw [Layout.getUserState, located]
  exact readConcern_of_listed listed _ _

/-- The metadata of a manga are a file. -/
theorem Entry.metadata (entry : Entry l before mangaID dir) :
    ∃ document, before.find (dir ++ ["metadata.json"]) = some (.file document) := by
  have readable := entry.readable
  rw [getMetadata_of_listed entry.located entry.listed] at readable
  cases found : before.find (dir ++ ["metadata.json"]) with
  | none => exact absurd found entry.listed
  | some node =>
      cases node with
      | file document => exact ⟨document, rfl⟩
      | directory =>
          rw [found] at readable
          contradiction

/-- What is read of a file changes exactly if a directory is made in its place. -/
theorem readNode_iff {α : Type} {f : Files Document} {path : Path} (zero : α)
    (decode : Document → Option α) (steady : Steady path f f' steps) :
    readNode zero decode (f'.tree.find path) = readNode zero decode (f.tree.find path) ↔
      ∀ step ∈ steps, ¬ MakesDirectory path step := by
  rw [← steady.same_iff]
  refine ⟨fun same => ?_, fun same => by rw [same]⟩
  cases steady with
  | kept _ unchanged => exact unchanged
  | made _ new directory =>
      rw [new, directory] at same
      contradiction

/-- Outside its directory an import leaves the files of a manga. -/
theorem Imported.steady (imported : Imported l body target (.ofTree before) f' steps record)
    (elsewhere : dir ≠ target) {name : String} (named : name ∈ concernNames) :
    Steady (dir ++ [name]) (.ofTree before) f' steps := by
  rcases imported.written with ⟨m, b, u, _, _, phase⟩
  exact phase.kept dir name named fun same => absurd same elsewhere

theorem Imported.listed (imported : Imported l body target (.ofTree before) f' steps record)
    (entry : Entry l before mangaID dir) : f'.tree.find (dir ++ ["metadata.json"]) ≠ none := by
  by_cases same : dir = target
  · subst same
    rcases imported.written with ⟨m, b, u, _, _, phase⟩
    rw [phase.own ("metadata.json", .metadata m) List.mem_cons_self]
    simp
  · rcases entry.metadata with ⟨document, found⟩
    rw [(imported.steady same List.mem_cons_self).file found]
    simp

theorem storedChapter_imported (imported : Imported l body target (.ofTree before) f' steps record)
    (dir : Path) (providerID chapterID : String) :
    storedChapter f'.tree dir providerID chapterID =
      (lastManifest l body.remoteID body.providerID record.chapters (dir ++ [providerID, chapterID])).or
        (storedChapter before dir providerID chapterID) := by
  rcases imported.written with ⟨m, b, u, _, _, phase⟩
  have whole : dir ++ [providerID, chapterID, "meta.json"] =
      (dir ++ [providerID, chapterID]) ++ ["meta.json"] := by simp
  rw [storedChapter, whole, phase.manifests]
  cases lastManifest l body.remoteID body.providerID record.chapters
      (dir ++ [providerID, chapterID]) with
  | some chMeta => rfl
  | none =>
      simp only [Option.map_none, Option.none_or, storedChapter, whole]
      rfl

/-- The files of the imported manga, as they are read. -/
theorem Imported.reads (imported : Imported l body target (.ofTree before) f' steps record)
    (entry : Entry l before mangaID target) :
    (∃ b, l.getBindings f'.tree mangaID = some b ∧ ∀ pair, boundTo b pair ↔ pair = body.pair) ∧
      ∃ u, l.getUserState f'.tree mangaID = some u ∧
        ownState u = { UserState.zero with addedAt := record.addedAt } := by
  rcases imported.written with ⟨m, b, u, bound, own, phase⟩
  have listed := imported.listed entry
  rw [getBindings_of_listed entry.located listed, getUserState_of_listed entry.located listed,
    phase.own ("bindings.json", .bindings b) (by simp),
    phase.own ("user_state.json", .userState u) (by simp)]
  exact ⟨⟨b, rfl, bound⟩, u, rfl, own⟩

/-- Elsewhere the bindings and the user state stay exactly if no directory is made in their place. -/
theorem Imported.elsewhere (imported : Imported l body target (.ofTree before) f' steps record)
    (entry : Entry l before mangaID dir) (elsewhere : dir ≠ target) :
    l.getMetadata f'.tree mangaID = l.getMetadata before mangaID ∧
      (l.getBindings f'.tree mangaID = l.getBindings before mangaID ↔
        ∀ step ∈ steps, ¬ MakesDirectory (dir ++ ["bindings.json"]) step) ∧
      (l.getUserState f'.tree mangaID = l.getUserState before mangaID ↔
        ∀ step ∈ steps, ¬ MakesDirectory (dir ++ ["user_state.json"]) step) := by
  have listed := imported.listed entry
  rw [getMetadata_of_listed entry.located listed, getMetadata_of_listed entry.located entry.listed,
    getBindings_of_listed entry.located listed, getBindings_of_listed entry.located entry.listed,
    getUserState_of_listed entry.located listed, getUserState_of_listed entry.located entry.listed]
  refine ⟨?_, readNode_iff _ _ (imported.steady elsewhere (by decide)),
    readNode_iff _ _ (imported.steady elsewhere (by decide))⟩
  rcases entry.metadata with ⟨document, found⟩
  rw [(imported.steady elsewhere List.mem_cons_self).file found, found]

/-- A manga with a binding has a file for it. -/
theorem IsBound.file (entry : Entry l before mangaID dir) {pair : String × String}
    (bound : IsBound l before mangaID pair) :
    ∃ document, before.find (dir ++ ["bindings.json"]) = some (.file document) := by
  rcases bound with ⟨b, read, isBound⟩
  rw [getBindings_of_listed entry.located entry.listed] at read
  cases found : before.find (dir ++ ["bindings.json"]) with
  | none =>
      rw [found] at read
      cases read
      simp [boundTo, SavedBindings.missing, MangaBindings.binds] at isBound
  | some node =>
      cases node with
      | file document => exact ⟨document, rfl⟩
      | directory =>
          rw [found] at read
          contradiction

/-- A manga that is lost nothing of bears the conditions. -/
theorem findsNothing_of_clobbersNothing
    (imported : Imported l body target (.ofTree before) f' steps record)
    (clobbers : ClobbersNothing l body.pair before f'.tree) :
    FindsNothing l body before steps record where
  target mangaID dir located entry := by
    rw [imported.located] at located
    cases located
    rcases imported.reads entry with ⟨⟨b, readBindings, onlyPair⟩, u, readUser, fresh⟩
    have bound : IsBound l before mangaID body.pair := by
      by_contra notBound
      have same := ((clobbers mangaID target entry).1 notBound).bindings
      exact notBound ⟨b, same.symm.trans readBindings, (onlyPair _).mpr rfl⟩
    have kept := (clobbers mangaID target entry).2 bound
    refine ⟨bound, fun other isBound => ?_, fun old readOld => ?_⟩
    · by_contra different
      rcases kept.bindings other different isBound with ⟨b', readAfter, boundAfter⟩
      rw [readBindings] at readAfter
      cases readAfter
      exact different ((onlyPair other).mp boundAfter)
    · rcases kept.userState old readOld with ⟨new, readNew, same⟩
      rw [readUser] at readNew
      cases readNew
      rw [← same, fresh]
  elsewhere mangaID dir located entry := by
    have elsewhere : dir ≠ target := fun same => located (same ▸ imported.located)
    rcases imported.elsewhere entry elsewhere with ⟨_, bindings, userState⟩
    simp only [List.mem_cons, List.not_mem_nil, or_false, forall_eq_or_imp, forall_eq]
    by_cases bound : IsBound l before mangaID body.pair
    · constructor
      · have steady := imported.steady elsewhere (by decide : "bindings.json" ∈ concernNames)
        rcases bound.file entry with ⟨document, found⟩
        exact steady.same_iff.mp ((steady.file found).trans found.symm)
      · have steady := imported.steady elsewhere (by decide : "user_state.json" ∈ concernNames)
        cases steady with
        | kept quiet _ => exact quiet
        | made _ new directory =>
            have read := getUserState_of_listed entry.located entry.listed
            have readAfter := getUserState_of_listed entry.located (imported.listed entry)
            rw [show before.find (dir ++ ["user_state.json"]) = none from new] at read
            rw [directory] at readAfter
            rcases ((clobbers mangaID dir entry).2 bound).userState _ read with ⟨u, found, _⟩
            rw [readAfter] at found
            contradiction
    · have untouched := (clobbers mangaID dir entry).1 bound
      exact ⟨bindings.mp untouched.bindings, userState.mp untouched.userState⟩
  chapters mangaID dir providerID chapterID chMeta entry saved := by
    have stored := storedChapter_imported imported dir providerID chapterID
    rw [saved, Option.some_or] at stored
    refine ⟨fun notBound => ?_, fun bound old found => ?_⟩
    · rw [← ((clobbers mangaID dir entry).1 notBound).chapters, stored]
    · rcases ((clobbers mangaID dir entry).2 bound).progress _ _ old found with ⟨new, read, same⟩
      rw [stored] at read
      cases read
      rw [← same, imported.unread _ _ saved]

theorem clobbersNothing_of_findsNothing
    (imported : Imported l body target (.ofTree before) f' steps record)
    (nothing : FindsNothing l body before steps record) :
    ClobbersNothing l body.pair before f'.tree := by
  intro mangaID dir entry
  have stays : ∀ {name : String}, name ∈ ["bindings.json", "user_state.json"] → dir ≠ target →
      ∀ step ∈ steps, ¬ MakesDirectory (dir ++ [name]) step := by
    intro name named elsewhere
    refine nothing.elsewhere mangaID dir (fun located => elsewhere ?_) entry name named
    rw [imported.located] at located
    exact (Except.ok.inj located).symm
  constructor
  · intro notBound
    have elsewhere : dir ≠ target := fun same =>
      notBound (nothing.target mangaID dir (same ▸ imported.located) entry).1
    rcases imported.elsewhere entry elsewhere with ⟨metadata, bindings, userState⟩
    refine ⟨metadata, bindings.mpr (stays (by simp) elsewhere),
      userState.mpr (stays (by simp) elsewhere), fun providerID chapterID => ?_⟩
    rw [storedChapter_imported imported]
    cases saved : lastManifest l body.remoteID body.providerID record.chapters
        (dir ++ [providerID, chapterID]) with
    | none => rfl
    | some chMeta =>
        exact ((nothing.chapters mangaID dir _ _ chMeta entry saved).1 notBound).symm
  · intro bound
    have progress : ∀ providerID chapterID chMeta,
        storedChapter before dir providerID chapterID = some chMeta →
          ∃ chMeta', storedChapter f'.tree dir providerID chapterID = some chMeta' ∧
            readingProgress chMeta' = readingProgress chMeta := by
      intro providerID chapterID old found
      rw [storedChapter_imported imported]
      cases saved : lastManifest l body.remoteID body.providerID record.chapters
          (dir ++ [providerID, chapterID]) with
      | none => exact ⟨old, found, rfl⟩
      | some chMeta =>
          have unread := (nothing.chapters mangaID dir _ _ chMeta entry saved).2 bound old found
          exact ⟨chMeta, rfl, by rw [imported.unread _ _ saved, unread]⟩
    by_cases same : dir = target
    · subst same
      rcases nothing.target mangaID dir imported.located entry with ⟨_, onlyPair, fresh⟩
      rcases imported.reads entry with ⟨_, u, readUser, own⟩
      refine ⟨fun old readOld => ⟨u, readUser, ?_⟩, progress, fun other different isBound => ?_⟩
      · rw [own, fresh old readOld]
      · exact absurd (onlyPair other isBound) different
    · rcases imported.elsewhere entry same with ⟨_, bindings, userState⟩
      refine ⟨fun old readOld => ⟨old, ?_, rfl⟩, progress, fun other _ isBound => ?_⟩
      · rw [userState.mpr (stays (by simp) same), readOld]
      · rcases isBound with ⟨b, read, isBound⟩
        exact ⟨b, (bindings.mpr (stays (by simp) same)).trans read, isBound⟩

end Kept

/-! ## An import into a library -/

def importedDetails : ProviderMetadata where
  title := "One"
  aliases := none
  coverURL := ""
  synopsis := ""
  authors := none
  artists := none
  tags := none
  readingMode := ""
  url := ""
  publishers := none
  releaseYear := 0
  startDate := ""
  endDate := ""
  country := ""

/-- The manga `1` of the provider `a`. -/
def importOne : ImportRequest := ⟨"a", "1", ""⟩

/-- Nothing is refused, and there are no chapters. -/
def importChoices : List (FileChoice ImportQuestion.Answer) :=
  [.answer (.getProvider "a") (some "A"), .answer (.details "a" "1") (some importedDetails),
    .answer .now Time.zero, .grant "", .grant "0", .grant "", .grant "", .grant "", .grant "0",
    .grant "", .grant "", .answer .now Time.zero, .grant "", .grant "0", .grant "", .grant "",
    .answer (.fetchChapters "a" "1") none]

/-- The import of `1` into a library: what it stored, and the files afterwards. -/
def importedInto (disk : Disk) : Option (ImportRecord × Disk) :=
  ((importProviderManga libraryLayout importOne).run Files.respond (.ofTree disk) importChoices).bind
    fun
      | (.created record, f) => some (record, f.tree)
      | _ => none

theorem importedInto_run {disk : Disk} (isSome : (importedInto disk).isSome = true) :
    ∃ record f', (importProviderManga libraryLayout importOne).run Files.respond (.ofTree disk)
      importChoices = some (.created record, f') ∧ importedInto disk = some (record, f'.tree) := by
  rcases Option.isSome_iff_exists.mp isSome with ⟨stored, found⟩
  rcases Option.bind_eq_some_iff.mp found with ⟨⟨reply, f'⟩, ran, kept⟩
  cases reply with
  | created record =>
      refine ⟨record, f', ran, ?_⟩
      rw [found, ← kept]
  | badRequest | providerError | failed => contradiction

/-- The manga `1` of another provider, with a rating. -/
def otherOne : Disk := FileTree.ofEntries
  [(["library", "1", "metadata.json"], .file (.metadata MangaMetadata.zero)),
    (["library", "1", "user_state.json"], .file (.userState { UserState.zero with rating := 9 })),
    (["library", "1", "bindings.json"], .file (.bindings ⟨[⟨"b", "1", "Other"⟩], none⟩)),
    (["library", "1"], .directory), (["library"], .directory)] rfl

end Kiyomi.Api
