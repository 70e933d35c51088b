import Kiyomi.Foundation.Run
import Kiyomi.Library.Interruptions

namespace Kiyomi.Api

open Go Library

/-! # Refreshing the chapters of a manga

`refreshChaptersFromContent` reads the library and asks the provider for its chapters. The
chapters that are not stored yet are saved by workers, sixteen at most at a time, and in the
end the bindings get the time of the synchronisation. A save holds the lock of the library,
so the workers take turns; the request may be cancelled at any moment. -/

/-- What a refresh works on. -/
structure RefreshPlan where
  providerID : String
  bindings : MangaBindings
  /-- The ids of the stored chapters. -/
  existing : List String
  /-- What `FetchChapters` has returned. -/
  chapters : List Chapter
  now : Time

namespace RefreshPlan

/-- Nothing is read yet. -/
def zero : RefreshPlan := ⟨"", ⟨[], none⟩, [], [], Time.zero⟩

def toAdd (plan : RefreshPlan) : List Chapter :=
  plan.chapters.filter fun ch => !plan.existing.contains ch.id

def numWorkers (plan : RefreshPlan) : Nat := min plan.toAdd.length 16

def chMeta (plan : RefreshPlan) (ch : Chapter) : ChapterMeta :=
  { ChapterMeta.zero with
    title := ch.name
    number := ch.number
    uploadDate := ch.uploadDate
    sourceOrder := ch.sourceOrder
    content := some
      { ContentSource.zero with
        providerID := plan.providerID, chapterRef := ch.id, lastSyncedAt := plan.now } }

/-- The stored chapters that the provider does not have. -/
def orphaned (plan : RefreshPlan) : Nat :=
  if plan.providerID = "local" then 0
  else plan.existing.countP fun id => !plan.chapters.any fun ch => id == ch.id

end RefreshPlan

/-- Where the request is: in the loop over the new chapters, before the check or at the
`select`, or after it. -/
inductive RefreshPoint
  | started
  | checking (todo : List Chapter)
  | selecting (ch : Chapter) (todo : List Chapter)
  | waiting
  | returned (orphaned : Nat) (ok : Bool)
  deriving DecidableEq

structure ChapterRefresh where
  files : Files Document
  /-- The context is done. -/
  cancelled : Bool
  plan : RefreshPlan
  /-- The chapters that workers are about to save. -/
  running : List Chapter
  added : Nat
  /-- `saveErr` is set. -/
  failed : Bool
  point : RefreshPoint

abbrev Choices := List (FileChoice fun _ : Empty => Unit)

inductive RefreshAction
  /-- What the provider returns, if there is one and it does not fail. -/
  | read (fetched : Option (List Chapter)) (now : Time) (choices : Choices)
  | cancel
  | check
  | startWorker
  | stop
  | saveChapter (worker : Nat) (choices : Choices)
  | finish (choices : Choices)

namespace ChapterRefresh

variable (l : Layout) (mangaID : String)

def begin (files : Files Document) : ChapterRefresh where
  files
  cancelled := false
  plan := .zero
  running := []
  added := 0
  failed := false
  point := .started

/-- The first part, which writes nothing. -/
def read (fetched : Option (List Chapter)) (now : Time) : Alone (Option RefreshPlan) := do
  match ← Effects.getManga l mangaID with
  | none => pure none
  | some info =>
      match info.bindings.content with
      | none => pure none
      | some content =>
          if content.providerID = "" then pure none
          else
            match fetched with
            | none => pure none
            | some chapters => do
                match ← Effects.listChapters l mangaID [content.providerID] with
                | none => pure none
                | some existing =>
                    pure (some
                      { providerID := content.providerID
                        bindings := info.bindings
                        existing := existing.map ChapterInfo.id
                        chapters, now })

def step : StepFunction ChapterRefresh RefreshAction
  | s, .read fetched now choices =>
      match s.point with
      | .started =>
          match (read l mangaID fetched now).run Files.respond s.files choices with
          | none => none
          | some (none, files) => some { s with files, point := .returned 0 false }
          | some (some plan, files) => some { s with files, plan, point := .checking plan.toAdd }
      | _ => none
  | s, .cancel => some { s with cancelled := true }
  | s, .check =>
      match s.point with
      | .checking [] => some { s with point := .waiting }
      | .checking (ch :: todo) =>
          if s.cancelled then some { s with failed := true, point := .waiting }
          else some { s with point := .selecting ch todo }
      | _ => none
  | s, .startWorker =>
      match s.point with
      | .selecting ch todo =>
          if s.running.length < s.plan.numWorkers then
            some { s with running := s.running ++ [ch], point := .checking todo }
          else none
      | _ => none
  | s, .stop =>
      match s.point with
      | .selecting _ _ =>
          if s.cancelled then some { s with failed := true, point := .waiting } else none
      | _ => none
  | s, .saveChapter worker choices =>
      match focus worker s.running with
      | none => none
      | some (before, ch, after) =>
          match (Effects.saveChapter l mangaID s.plan.providerID ch.id (s.plan.chMeta ch) :
            Alone Bool).run Files.respond s.files choices with
          | none => none
          | some (true, files) =>
              some { s with files, running := before ++ after, added := s.added + 1 }
          | some (false, files) =>
              some { s with files, running := before ++ after, failed := true }
  | s, .finish choices =>
      match s.point, s.running with
      | .waiting, [] =>
          if s.failed then some { s with point := .returned 0 false }
          else if s.cancelled then some { s with point := .returned s.plan.orphaned false }
          else
            match (Effects.saveBindings l mangaID (s.plan.bindings.stamp s.plan.now) :
              Alone Bool).run Files.respond s.files choices with
            | none => none
            | some (ok, files) => some { s with files, point := .returned s.plan.orphaned ok }
      | _, _ => none

end ChapterRefresh

/-! ## What a refresh leaves -/

section Reconciliation

variable (l : Layout) (mangaID : String)

/-- The file that the save of a chapter goes to. -/
def RefreshPlan.manifest (plan : RefreshPlan) (ch : Chapter) : Option Path :=
  match l.providerChapterDir mangaID plan.providerID ch.id with
  | .ok dir => some (dir ++ ["meta.json"])
  | .error _ => none

/-- The path is not that of a temporary file of the saves. -/
def Lasting (q : Path) : Prop :=
  ∀ dir, ∀ digits : String, q ≠ dir ++ ["meta.json" ++ ".tmp." ++ digits] ∧
    q ≠ dir ++ ["bindings.json" ++ ".tmp." ++ digits]

/-- What is at the path stays, or a directory is made where nothing was. -/
def Unmoved (q : Path) (before after : Disk) : Prop :=
  after.find q = before.find q ∨ before.find q = none ∧ after.find q = some .directory

/-- The chapters are stored as new ones and everything else is as before, but for directories
that have been made. -/
structure Stored (plan : RefreshPlan) (saved : List Chapter) (isBindings : Path → Prop)
    (before after : Disk) : Prop where
  new : ∀ q, (∃ ch ∈ saved, plan.manifest l mangaID ch = some q) →
    ∃ ch ∈ saved, plan.manifest l mangaID ch = some q ∧
      after.find q = some (.file (.chapter (plan.chMeta ch).saved))
  kept : ∀ q, Lasting q → ¬ isBindings q → (∀ ch ∈ saved, plan.manifest l mangaID ch ≠ some q) →
    Unmoved q before after

/-- What is known of a refresh at any time, with the chapters that it has saved so far. -/
structure ChapterRefresh.Reconciled (f : Files Document) (s : ChapterRefresh) (saved : List Chapter) :
    Prop where
  workers : s.running.length ≤ 16
  added : saved.length = s.added
  missing : ∀ ch ∈ saved, ch ∈ s.plan.chapters ∧ ch.id ∉ s.plan.existing
  stored : Stored l mangaID s.plan saved
    (fun q => (∃ orphaned, s.point = .returned orphaned true) ∧
      ∃ dir, l.mangaDir mangaID = .ok dir ∧ q = dir ++ ["bindings.json"]) f.tree s.files.tree
  completed : ∀ orphaned, s.point = .returned orphaned true →
    saved.Perm s.plan.toAdd ∧ orphaned = s.plan.orphaned ∧
      ∃ dir, l.mangaDir mangaID = .ok dir ∧ s.files.tree.find (dir ++ ["bindings.json"]) =
        some (.file (.bindings (s.plan.bindings.stamp s.plan.now).normalize))

end Reconciliation

section Proof

variable {l : Layout} {mangaID : String} {plan : RefreshPlan} {saved lost : List Chapter}
  {before middle after : Disk} {files files' : Files Document} {choices : Choices} {ch : Chapter}

/-! ## One save -/

theorem Unmoved.trans {q : Path} (early : Unmoved q before middle) (late : Unmoved q middle after) :
    Unmoved q before after := by
  rcases early with same | ⟨absent, made⟩
  · rcases late with same' | ⟨absent, made⟩
    · exact .inl (same'.trans same)
    · exact .inr ⟨same.symm.trans absent, made⟩
  · rcases late with same' | ⟨absent', _⟩
    · exact .inr ⟨absent, same'.trans made⟩
    · rw [made] at absent'
      contradiction

theorem stored_refl (disk : Disk) : Stored l mangaID plan [] (fun _ => False) disk disk where
  new q member := by simp at member
  kept q _ _ _ := .inl rfl

theorem Stored.mono {isBindings wider : Path → Prop}
    (stored : Stored l mangaID plan saved isBindings before after)
    (implies : ∀ q, isBindings q → wider q) : Stored l mangaID plan saved wider before after where
  new := stored.new
  kept q lasting other := stored.kept q lasting fun isOne => other (implies q isOne)

theorem manifest_ne {q dir : Path} {name : String}
    (isManifest : plan.manifest l mangaID ch = some q) (other : name ≠ "meta.json") :
    q ≠ dir ++ [name] := by
  unfold RefreshPlan.manifest at isManifest
  split at isManifest
  · rintro rfl
    have last := congrArg List.getLast? (Option.some.inj isManifest)
    exact other (by simpa using last.symm)
  · contradiction

/-- The save of one chapter leaves everything but its manifest. -/
theorem saveChapter_leaves {ok : Bool} {q : Path}
    (ran : (Effects.saveChapter l mangaID plan.providerID ch.id (plan.chMeta ch) : Alone Bool).run
      Files.respond files choices = some (ok, files'))
    (noTemporary : ∀ dir, ∀ digits : String, q ≠ dir ++ ["meta.json" ++ ".tmp." ++ digits])
    (other : ok = true → plan.manifest l mangaID ch ≠ some q) :
    Unmoved q files.tree files'.tree := by
  have apart : ok = true → ∀ dir, l.providerChapterDir mangaID plan.providerID ch.id = .ok dir →
      q ≠ dir ++ ["meta.json"] := by
    rintro isSaved dir located rfl
    exact other isSaved (by rw [RefreshPlan.manifest, located])
  cases saveChapter_steady apart noTemporary ran with
  | kept _ same => exact .inl same
  | made _ new directory => exact .inr ⟨new, directory⟩

theorem Stored.save {ok : Bool}
    (stored : Stored l mangaID plan saved (fun _ => False) before files.tree)
    (ran : (Effects.saveChapter l mangaID plan.providerID ch.id (plan.chMeta ch) : Alone Bool).run
      Files.respond files choices = some (ok, files')) :
    Stored l mangaID plan (if ok = true then ch :: saved else saved) (fun _ => False) before
      files'.tree where
  new q isTarget := by
    by_cases own : ok = true ∧ plan.manifest l mangaID ch = some q
    · rcases own with ⟨rfl, isManifest⟩
      rcases saveChapter_done ran with ⟨dir, located, found⟩
      rw [RefreshPlan.manifest, located] at isManifest
      rw [if_pos rfl]
      refine ⟨ch, List.mem_cons_self, ?_, Option.some.inj isManifest ▸ found⟩
      rw [RefreshPlan.manifest, located, isManifest]
    · have old : ∃ other ∈ saved, plan.manifest l mangaID other = some q := by
        rcases isTarget with ⟨other, member, isManifest⟩
        split at member
        · rename_i isSaved
          rcases List.mem_cons.mp member with rfl | member
          · exact absurd ⟨isSaved, isManifest⟩ own
          · exact ⟨other, member, isManifest⟩
        · exact ⟨other, member, isManifest⟩
      rcases stored.new q old with ⟨other, member, isManifest, found⟩
      refine ⟨other, ?_, isManifest, ?_⟩
      · split
        · exact List.mem_cons_of_mem _ member
        · exact member
      · rcases saveChapter_leaves ran (fun _ digits => manifest_ne isManifest (temporaryName_ne digits))
          (fun isSaved same => own ⟨isSaved, same⟩) with same | ⟨absent, _⟩
        · rw [same, found]
        · rw [found] at absent
          contradiction
  kept q lasting notBindings notSaved := by
    have early := stored.kept q lasting notBindings fun other member =>
      notSaved other (by split <;> simp [member])
    refine early.trans (saveChapter_leaves ran (fun dir digits => (lasting dir digits).1) ?_)
    rintro rfl
    exact notSaved ch (by simp)

/-- The bindings are saved last. -/
theorem Stored.saveBindings {b : MangaBindings} {ok : Bool}
    (stored : Stored l mangaID plan saved (fun _ => False) before files.tree)
    (ran : (Effects.saveBindings l mangaID b : Alone Bool).run Files.respond files choices =
      some (ok, files')) :
    Stored l mangaID plan saved
        (fun q => ok = true ∧ ∃ dir, l.mangaDir mangaID = .ok dir ∧ q = dir ++ ["bindings.json"])
        before files'.tree ∧
      (ok = true → ∃ dir, l.mangaDir mangaID = .ok dir ∧
        files'.tree.find (dir ++ ["bindings.json"]) = some (.file (.bindings b.normalize))) := by
  cases located : l.mangaDir mangaID with
  | error refused =>
      simp only [Effects.saveBindings, located] at ran
      rcases Program.run_done.mp ran with ⟨_, rfl, rfl⟩
      exact ⟨stored.mono fun q impossible => impossible.elim, fun impossible => by contradiction⟩
  | ok dir =>
      have rewritten : Rewritten dir "bindings.json" (.bindings b.normalize) ok files.tree
        files'.tree := saveLocked_rewrites located ran
      refine ⟨⟨fun q isTarget => ?_, fun q lasting notBindings notSaved => ?_⟩,
        fun isSaved => ⟨dir, rfl, rewritten.new isSaved⟩⟩
      · rcases stored.new q isTarget with ⟨one, member, isManifest, found⟩
        have notBindings : ∀ digits : String,
            "bindings.json" ++ ".tmp." ++ digits ≠ "meta.json" := by
          intro digits same
          have first := congrArg (fun name => name.toList.head?) same
          simp at first
        have stays := rewritten.kept q (fun _ => manifest_ne isManifest (by decide))
          fun digits => manifest_ne isManifest (notBindings digits)
        refine ⟨one, member, isManifest, ?_⟩
        rcases stays with same | ⟨_, absent, _⟩
        · rw [same, found]
        · rw [found] at absent
          contradiction
      · have stays := rewritten.kept q
          (fun isSaved same => notBindings ⟨isSaved, dir, rfl, same⟩)
          fun digits => (lasting dir digits).2
        refine (stored.kept q lasting id notSaved).trans ?_
        exact stays.imp id And.right

/-! ## The run -/

/-- The chapters that no worker has yet. -/
def RefreshPoint.todo : RefreshPoint → List Chapter
  | .checking todo => todo
  | .selecting ch todo => ch :: todo
  | .started | .waiting | .returned _ _ => []

/-- No worker has been started yet, or all are done. -/
def RefreshPoint.quiet : RefreshPoint → Bool
  | .started | .returned _ _ => true
  | .checking _ | .selecting _ _ | .waiting => false

/-- Every new chapter is saved, lost, with a worker, or still to come; and none is lost unless
an error is noted. -/
structure ChapterRefresh.Progress (l : Layout) (mangaID : String) (f : Files Document)
    (s : ChapterRefresh) (saved lost : List Chapter) : Prop where
  reconciled : s.Reconciled l mangaID f saved
  all : (saved ++ lost ++ (s.running ++ s.point.todo)).Perm s.plan.toAdd
  workers : s.running.length ≤ s.plan.numWorkers
  sound : s.failed = false → lost = []
  quiet : s.point.quiet = true → s.running = []
  fresh : s.point = .started → s.plan = .zero

namespace ChapterRefresh

variable {f : Files Document} {s next : ChapterRefresh}

theorem Progress.stored (progress : s.Progress l mangaID f saved lost)
    (busy : ∀ orphaned, s.point ≠ .returned orphaned true) :
    Stored l mangaID s.plan saved (fun _ => False) f.tree s.files.tree :=
  progress.reconciled.stored.mono fun _ both => both.1.elim busy

theorem progress_begin (files : Files Document) :
    (begin files).Progress l mangaID files [] [] where
  reconciled :=
    { workers := Nat.zero_le _
      added := rfl
      missing := by simp
      stored := (stored_refl files.tree).mono fun _ impossible => impossible.elim
      completed := fun _ impossible => by contradiction }
  all := .refl _
  workers := Nat.zero_le _
  sound _ := rfl
  quiet _ := rfl
  fresh _ := rfl

/-- A step that touches no file. -/
theorem Progress.move {lost' : List Chapter} (progress : s.Progress l mangaID f saved lost)
    (files : next.files = s.files) (plan : next.plan = s.plan) (added : next.added = s.added)
    (all : (saved ++ lost' ++ (next.running ++ next.point.todo)).Perm next.plan.toAdd)
    (workers : next.running.length ≤ next.plan.numWorkers)
    (sound : next.failed = false → lost' = []) (busy : next.point.quiet = false)
    (wasBusy : s.point.quiet = false) : next.Progress l mangaID f saved lost' where
  reconciled :=
    { workers := workers.trans (Nat.min_le_right _ _)
      added := progress.reconciled.added.trans added.symm
      missing := plan ▸ progress.reconciled.missing
      stored := by
        rw [files, plan]
        refine (progress.stored fun orphaned same => ?_).mono fun _ impossible => impossible.elim
        simp [same, RefreshPoint.quiet] at wasBusy
      completed := fun orphaned same => by simp [same, RefreshPoint.quiet] at busy }
  all := all
  workers := workers
  sound := sound
  quiet isQuiet := by
    rw [busy] at isQuiet
    contradiction
  fresh isStarted := by simp [isStarted, RefreshPoint.quiet] at busy

/-- The end of a refresh that has saved nothing since. -/
theorem Progress.giveUp {orphaned : Nat} (progress : s.Progress l mangaID f saved lost)
    (stored : Stored l mangaID s.plan saved (fun _ => False) f.tree next.files.tree)
    (plan : next.plan = s.plan) (added : next.added = s.added) (running : next.running = [])
    (wasIdle : s.running = []) (todo : s.point.todo = [])
    (failed : next.failed = s.failed) (point : next.point = .returned orphaned false) :
    next.Progress l mangaID f saved lost where
  reconciled :=
    { workers := by simp [running]
      added := progress.reconciled.added.trans added.symm
      missing := plan ▸ progress.reconciled.missing
      stored := plan ▸ stored.mono fun _ impossible => impossible.elim
      completed := fun other same => by simp [point] at same }
  all := by
    have all := progress.all
    rw [wasIdle, todo] at all
    rw [running, point, plan]
    exact all
  workers := by simp [running]
  sound clean := progress.sound (failed ▸ clean)
  quiet _ := running
  fresh isStarted := by simp [point] at isStarted

theorem listChapters_onlyReads (l : Layout) (mangaID : String) (providerIDs : List String) :
    (Effects.listChapters l mangaID providerIDs : Alone _).Calls FileCall.Reads fun _ => True := by
  refine Reads.onlyReads (?_ : Reads (fun _ => True) _ _)
  exact Effects.listChapters_reads (fun _ _ => ⟨trivial, fun _ => trivial⟩) fun _ _ _ _ => trivial

theorem tree_of_read {fetched : Option (List Chapter)} {now : Time} {result : Option RefreshPlan}
    (ran : (read l mangaID fetched now).run Files.respond files choices = some (result, files')) :
    files'.tree = files.tree := by
  rcases Program.run_bind.mp ran with ⟨_, _, found, files₁, _, reads, ran⟩
  have same := (Effects.getManga_readsAs l mangaID reads).1
  have ends {value : Option RefreshPlan} {used : Choices}
      (ran : (.done value : Alone _).run Files.respond files₁ used = some (result, files')) :
      files'.tree = files.tree := by
    rcases Program.run_done.mp ran with ⟨_, _, rfl⟩
    exact same
  cases found with
  | none => exact ends ran
  | some info =>
      simp only at ran
      split at ran
      · exact ends ran
      · split at ran
        · exact ends ran
        · split at ran
          · exact ends ran
          · rcases Program.run_bind.mp ran with ⟨_, _, listed, files₂, _, lists, ran⟩
            have same' := tree_of_reads (listChapters_onlyReads l mangaID _) lists
            cases listed <;>
              · rcases Program.run_done.mp ran with ⟨_, _, rfl⟩
                exact same'.trans same

/-- Before anything is read nothing has happened. -/
theorem Progress.started (progress : s.Progress l mangaID f saved lost)
    (point : s.point = .started) : saved = [] ∧ lost = [] := by
  have none := progress.all
  rw [progress.fresh point] at none
  have nothing := List.Perm.eq_nil none
  simp only [List.append_eq_nil_iff] at nothing
  exact nothing.1

/-- The loop ends early. -/
theorem Progress.break (progress : s.Progress l mangaID f saved lost)
    (wasBusy : s.point.quiet = false) :
    { s with failed := true, point := .waiting }.Progress l mangaID f saved
      (lost ++ s.point.todo) := by
  refine progress.move rfl rfl rfl ?_ progress.workers (fun clean => by contradiction) rfl wasBusy
  refine List.Perm.trans ?_ progress.all
  change (saved ++ (lost ++ s.point.todo) ++ (s.running ++ [])).Perm _
  rw [List.append_nil, List.append_assoc, List.append_assoc, List.append_assoc]
  exact (List.perm_append_comm.append_left lost).append_left saved

/-- A chapter that a worker is done with. -/
theorem taken_perm {chapters todo left right : List Chapter}
    (all : (saved ++ lost ++ (left ++ ch :: right ++ todo)).Perm chapters) :
    (ch :: (saved ++ lost ++ (left ++ right ++ todo))).Perm chapters := by
  refine List.Perm.trans ?_ all
  have moved := @List.perm_middle _ ch (saved ++ lost ++ left) (right ++ todo)
  simpa using moved.symm

theorem Progress.step {action : RefreshAction} (progress : s.Progress l mangaID f saved lost)
    (taken : s.step l mangaID action = some next) :
    ∃ saved lost, next.Progress l mangaID f saved lost := by
  cases action with
  | cancel =>
      cases taken
      exact ⟨saved, lost, ⟨⟨progress.1.1, progress.1.2, progress.1.3, progress.1.4, progress.1.5⟩,
        progress.2, progress.3, progress.4, progress.5, progress.6⟩⟩
  | check =>
      simp only [ChapterRefresh.step] at taken
      split at taken
      · rename_i point
        cases taken
        refine ⟨saved, lost, progress.move rfl rfl rfl ?_ progress.workers progress.sound rfl ?_⟩
        · simpa [point, RefreshPoint.todo] using progress.all
        · simp [point, RefreshPoint.quiet]
      · rename_i ch todo point
        have all := progress.all
        rw [point] at all
        split at taken
        · cases taken
          exact ⟨saved, _, progress.break (by simp [point, RefreshPoint.quiet])⟩
        · cases taken
          exact ⟨saved, lost, progress.move rfl rfl rfl all progress.workers progress.sound rfl
            (by simp [point, RefreshPoint.quiet])⟩
      · contradiction
  | startWorker =>
      simp only [ChapterRefresh.step] at taken
      split at taken
      · rename_i ch todo point
        have all := progress.all
        rw [point] at all
        split at taken
        · rename_i room
          cases taken
          refine ⟨saved, lost, progress.move rfl rfl rfl ?_ ?_ progress.sound rfl
            (by simp [point, RefreshPoint.quiet])⟩
          · simpa [RefreshPoint.todo] using all
          · rw [List.length_append]
            exact room
        · contradiction
      · contradiction
  | stop =>
      simp only [ChapterRefresh.step] at taken
      split at taken
      · rename_i ch todo point
        split at taken
        · cases taken
          exact ⟨saved, _, progress.break (by simp [point, RefreshPoint.quiet])⟩
        · contradiction
      · contradiction
  | read fetched now choices =>
      simp only [ChapterRefresh.step] at taken
      split at taken
      · rename_i point
        have idle := progress.quiet (by rw [point, RefreshPoint.quiet])
        split at taken
        · contradiction
        · rename_i files ran
          cases taken
          have same := tree_of_read ran
          refine ⟨saved, lost, progress.giveUp ?_ rfl rfl idle idle ?_ rfl rfl⟩
          · change Stored l mangaID s.plan saved _ f.tree files.tree
            rw [same]
            exact progress.stored (by simp [point])
          · rw [point, RefreshPoint.todo]
        · rename_i plan files ran
          cases taken
          have same := tree_of_read ran
          rcases progress.started point with ⟨rfl, rfl⟩
          refine ⟨[], [], ⟨⟨?_, progress.reconciled.added, by simp, ?_, by simp⟩, ?_, ?_, fun _ => rfl,
            fun impossible => by contradiction, fun impossible => by contradiction⟩⟩
          · simp [idle]
          · have stored := progress.stored (by simp [point])
            refine ⟨by simp, fun q lasting _ _ => ?_⟩
            change Unmoved q f.tree files.tree
            rw [same]
            exact stored.kept q lasting id (by simp)
          · simp [idle, RefreshPoint.todo]
          · simp [idle]
      · contradiction
  | saveChapter worker choices =>
      simp only [ChapterRefresh.step] at taken
      split at taken
      · contradiction
      · rename_i before ch after focused
        have running := focus_eq focused
        have busy : s.point.quiet = false := by
          by_contra isQuiet
          simpa [running] using progress.quiet (by simpa using isQuiet)
        have fewer : (before ++ after).length ≤ s.plan.numWorkers :=
          le_trans (by simp [running]) progress.workers
        have open' : ∀ orphaned, s.point ≠ .returned orphaned true := fun orphaned same => by
          simp [same, RefreshPoint.quiet] at busy
        have stored := progress.stored open'
        have all := progress.all
        have isNew : ch ∈ s.plan.toAdd := all.subset (by simp [running])
        rw [running] at all
        split at taken
        · contradiction
        · rename_i files ran
          cases taken
          refine ⟨ch :: saved, lost, ⟨⟨fewer.trans (Nat.min_le_right _ _), ?_, ?_, ?_, ?_⟩, ?_, fewer,
            progress.sound, ?_, ?_⟩⟩
          · rw [List.length_cons, progress.reconciled.added]
          · exact List.forall_mem_cons.mpr ⟨by simpa [RefreshPlan.toAdd] using isNew,
              progress.reconciled.missing⟩
          · exact (stored.save ran).mono fun _ impossible => impossible.elim
          · exact fun orphaned same => absurd same (open' orphaned)
          · exact taken_perm all
          · simp [busy]
          · exact progress.fresh
        · rename_i files ran
          cases taken
          refine ⟨saved, lost ++ [ch], ⟨⟨fewer.trans (Nat.min_le_right _ _), progress.reconciled.added,
            progress.reconciled.missing, ?_, ?_⟩, ?_, fewer, fun clean => by contradiction, ?_, progress.fresh⟩⟩
          · exact (stored.save ran).mono fun _ impossible => impossible.elim
          · exact fun orphaned same => absurd same (open' orphaned)
          · refine List.Perm.trans ?_ (taken_perm all)
            simpa using @List.perm_middle _ ch (saved ++ lost) (before ++ after ++ s.point.todo)
          · simp [busy]
  | finish choices =>
      simp only [ChapterRefresh.step] at taken
      split at taken
      · rename_i point idle
        have busy : ∀ orphaned, s.point ≠ .returned orphaned true := by simp [point]
        have todo : s.point.todo = [] := by rw [point, RefreshPoint.todo]
        split at taken
        · cases taken
          exact ⟨saved, lost, progress.giveUp (progress.stored busy) rfl rfl idle idle todo rfl rfl⟩
        · rename_i clean
          split at taken
          · cases taken
            exact ⟨saved, lost, progress.giveUp (progress.stored busy) rfl rfl idle idle todo rfl rfl⟩
          · split at taken
            · contradiction
            · rename_i ok files ran
              cases taken
              rcases (progress.stored busy).saveBindings ran with ⟨stored, wrote⟩
              cases ok with
              | false =>
                  refine ⟨saved, lost, progress.giveUp ?_ rfl rfl idle idle todo rfl rfl⟩
                  exact stored.mono fun q impossible => by simp at impossible
              | true =>
                  have all := progress.all
                  obtain rfl := progress.sound (by simpa using clean)
                  rw [idle, todo, List.append_nil, List.append_nil, List.append_nil] at all
                  refine ⟨saved, [], ⟨⟨?_, progress.reconciled.added, progress.reconciled.missing, ?_,
                    ?_⟩, ?_, ?_, fun _ => rfl, fun _ => idle, fun impossible => by contradiction⟩⟩
                  · simp [idle]
                  · exact stored.mono fun q both => ⟨⟨_, rfl⟩, both.2⟩
                  · rintro orphaned same
                    cases same
                    exact ⟨all, rfl, wrote rfl⟩
                  · simpa [idle, RefreshPoint.todo] using all
                  · simp [idle]
      · contradiction

end ChapterRefresh

end Proof

/-- A manga without chapters that gets its chapters from a provider. -/
def boundManga : Disk := FileTree.ofEntries
  [(["library", "m", "metadata.json"], .file (.metadata MangaMetadata.zero)),
    (["library", "m", "bindings.json"],
      .file (.bindings ⟨[], some { ContentSource.zero with providerID := "p" }⟩)),
    (["library", "m"], .directory), (["library"], .directory)] rfl

def granted (calls : Nat) : Choices := List.replicate calls (.grant "")

/-- Two chapters, the second of which is saved first. -/
def refreshTwo : List RefreshAction :=
  [.read (some [⟨"c1", "One", 1, Time.zero, 0⟩, ⟨"c2", "Two", 2, Time.zero, 1⟩]) Time.zero (granted 5),
    .check, .startWorker, .check, .startWorker, .check, .saveChapter 1 (granted 5),
    .saveChapter 0 (granted 5), .finish (granted 4)]

end Kiyomi.Api
