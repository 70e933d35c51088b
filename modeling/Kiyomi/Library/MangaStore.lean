import Kiyomi.Foundation.Run
import Kiyomi.Library.Interruptions

namespace Kiyomi.Library

open Go

/-! # The store of a library

Seen from its callers, a library keeps three files for each manga. Its calls hold the lock
from their start to their end, so any interleaving of the requests is a history of calls. In
a history calls may fail and the process may end in the middle of one and start again. -/

/-! ## Histories of calls -/

inductive LibraryCall
  | getMetadata (id : String)
  | getUserState (id : String)
  | getBindings (id : String)
  | saveMetadata (id : String) (m : MangaMetadata)
  | saveUserState (id : String) (u : UserState) (now : Time)
  | saveBindings (id : String) (b : MangaBindings)
  /-- The locked section of `AddProvider`, `RemoveProvider` and `SwitchContentProvider`. -/
  | updateBindings (id : String) (change : MangaBindings → Except String MangaBindings)
  | saveManga (id : String) (info : Manga) (now : Time)
  | deleteManga (id : String)

/-- What a call returns; of most errors only that there is one. -/
inductive LibraryReply
  | metadata (m : Option MangaMetadata)
  | userState (u : Option UserState)
  | bindings (b : Option MangaBindings)
  | saved (ok : Bool)
  | updated (result : Except BindingsError Unit)
  | deleted (ok : Bool)

namespace LibraryCall

variable (l : Layout)

def id : LibraryCall → String
  | getMetadata id | getUserState id | getBindings id | saveMetadata id _ | saveUserState id _ _
  | saveBindings id _ | updateBindings id _ | saveManga id _ _ | deleteManga id => id

def program : LibraryCall → Alone LibraryReply
  | getMetadata id => do pure (.metadata (← Effects.getMetadata l id))
  | getUserState id => do pure (.userState (← Effects.getUserState l id))
  | getBindings id => do pure (.bindings (← Effects.getBindings l id))
  | saveMetadata id m => do pure (.saved (← Effects.saveMetadata l id m))
  | saveUserState id u now => do pure (.saved (← Effects.saveUserStateLocked l id u now))
  | saveBindings id b => do pure (.saved (← Effects.saveBindings l id b))
  | updateBindings id change => do pure (.updated (← Effects.updateBindings l id change))
  | saveManga id info now => do pure (.saved (← Effects.saveManga l id info now))
  | deleteManga id => do pure (.deleted (← Effects.deleteManga l id).isSome)

/-- What the call returns when the id has no directory. -/
def failure : LibraryCall → LibraryReply
  | getMetadata _ => .metadata none
  | getUserState _ => .userState none
  | getBindings _ => .bindings none
  | saveMetadata .. | saveUserState .. | saveBindings .. | saveManga .. => .saved false
  | updateBindings .. => .updated (.error .unreadable)
  | deleteManga _ => .deleted false

end LibraryCall

/-- A call with what it returns, or nothing when the process ends first. -/
structure LibraryEvent where
  call : LibraryCall
  reply : Option LibraryReply
  /-- The system has refused something. -/
  refused : Bool

/-- What is there when `os.RemoveAll` has removed some files and empty directories. -/
def removeSome (dir : Path) : List Path → Disk → Disk
  | [], disk => disk
  | path :: paths, disk =>
      removeSome dir paths (if dir <+: path then (disk.remove path).getD disk else disk)

inductive LibraryStep (l : Layout) : Files Document → LibraryEvent → Files Document → Prop
  | returns {call : LibraryCall} {f f' : Files Document}
      {choices : List (FileChoice fun _ : Empty => Unit)} {reply : LibraryReply}
      (ran : (call.program l).run Files.respond f choices = some (reply, f')) :
      LibraryStep l f ⟨call, some reply, choices.any FileChoice.isRefusal⟩ f'
  | stops {call : LibraryCall} {f f' : Files Document} (refused : Bool)
      (reached : (call.program l).Reaches Files.respond f f') :
      LibraryStep l f ⟨call, none, refused⟩ f'
  /-- A deletion has gone wrong on the way, or the process has ended. -/
  | deletes {id : String} {dir : Path} {f : Files Document} (located : l.mangaDir id = .ok dir)
      (removed : List Path) {reply : Option LibraryReply} (undone : ∀ ok ∈ reply, ok = .deleted false) :
      LibraryStep l f ⟨.deleteManga id, reply, true⟩ ⟨removeSome dir removed f.tree, f.touched⟩

/-! ## The store that the callers see -/

/-- Some of the files are gone. -/
def Held.PartlyGone (before after : Held α) : Prop := after = before ∨ after = .missing

/-- What a call may do to the files of its manga and return, in terms of the files alone. -/
def LibraryEvent.Allows (l : Layout) (before after : Shelved) : LibraryEvent → Prop
  | ⟨.getMetadata _, reply, refused⟩ =>
      after = before ∧ (reply = none ∨ reply = some (.metadata (before.metadata.read .zero)) ∨
        refused = true ∧ reply = some (.metadata none))
  | ⟨.getUserState _, reply, refused⟩ =>
      after = before ∧ (reply = none ∨ reply = some (.userState (before.userState.read .zero)) ∨
        refused = true ∧ reply = some (.userState none))
  | ⟨.getBindings _, reply, refused⟩ =>
      after = before ∧
        (reply = none ∨ reply = some (.bindings (before.bindings.read SavedBindings.missing.bindings)) ∨
          refused = true ∧ reply = some (.bindings none))
  | ⟨.saveMetadata _ m, reply, _⟩ => Saves [("metadata.json", .metadata (m.saved l.toLower))] reply
  | ⟨.saveUserState _ u now, reply, _⟩ => Saves [("user_state.json", .userState (u.saved now))] reply
  | ⟨.saveBindings _ b, reply, _⟩ => Saves [("bindings.json", .bindings b.normalize)] reply
  | ⟨.saveManga _ info now, reply, _⟩ => Saves (l.mangaFiles info now) reply
  | ⟨.updateBindings _ change, reply, refused⟩ =>
      after = before ∧
          (reply = none ∨ refused = true ∧ reply = some (.updated (.error .unreadable))) ∨
        match before.bindings.read SavedBindings.missing.bindings with
        | none => after = before ∧ reply = some (.updated (.error .unreadable))
        | some b => Changes (change b) reply
  | ⟨.deleteManga _, reply, _⟩ =>
      after = ⟨.missing, .missing, .missing⟩ ∧ reply = some (.deleted true) ∨
      (reply = none ∨ reply = some (.deleted false)) ∧
        before.metadata.PartlyGone after.metadata ∧ before.userState.PartlyGone after.userState ∧
        before.bindings.PartlyGone after.bindings
where
  Saves (files : List (String × Document)) (reply : Option LibraryReply) : Prop :=
    ∃ done rest, files = done ++ rest ∧ after = done.foldl Shelved.write before ∧
      (reply = none ∨ reply = some (.saved rest.isEmpty))
  Changes (change : Except String MangaBindings) (reply : Option LibraryReply) : Prop :=
    match change with
    | .error message => after = before ∧ reply = some (.updated (.error (.refused message)))
    | .ok changed =>
        after = before ∧ reply = some (.updated (.error .unsaved)) ∨
          after = { before with bindings := .value changed.normalize } ∧
            (reply = none ∨ reply = some (.updated (.ok ())))

/-- The store, with the directory of a manga for its key. -/
abbrev MangaStore := Path → Shelved

/-- A call changes what is stored for its own manga. -/
inductive MangaStore.Step (l : Layout) : MangaStore → LibraryEvent → MangaStore → Prop
  | located {store : MangaStore} {event : LibraryEvent} {dir : Path} {after : Shelved}
      (isDir : l.mangaDir event.call.id = .ok dir) (allowed : event.Allows l (store dir) after) :
      Step l store event (Function.update store dir after)
  | refused {store : MangaStore} {event : LibraryEvent} {error : PathError}
      (noDir : l.mangaDir event.call.id = .error error)
      (fails : ∀ reply ∈ event.reply, reply = event.call.failure) : Step l store event store

/-! ## What a call leaves alone -/

/-- No file lies above the directory. -/
def Clear (dir : Path) (disk : Disk) : Prop :=
  ∀ upper, upper <+: dir → upper ≠ dir → disk.readFile upper = none

/-- What is not below the directory stays, but for directories that lead to it. -/
def Outside (dir : Path) (before after : Disk) : Prop :=
  ∀ q, ¬ dir <+: q → Kept dir q before after

section Frames

variable {dir other : Path} {before after : Disk}

theorem Outside.of_find (same : ∀ q, ¬ dir <+: q → after.find q = before.find q) :
    Outside dir before after := fun q below => .inl (same q below)

theorem PartlyWritten.outside {done rest : List (String × Document)}
    (partly : PartlyWritten dir done rest before after) : Outside dir before after := by
  intro q below
  apply partly.kept
  · rintro file _ rfl
    exact below (List.prefix_append _ _)
  · rintro file _ digits rfl
    exact below (List.prefix_append _ _)

/-- Another manga is stored as before. -/
theorem Outside.shelved (outside : Outside dir before after) (apart : ¬ dir <+: other)
    (apart' : ¬ other <+: dir) : shelved after other = shelved before other := by
  have same (name : String) : SameAt (other ++ [name]) before after := by
    have high : ∀ upper, upper <+: other → ¬ dir <+: upper :=
      fun upper isUpper below => apart (below.trans isUpper)
    have below : ¬ dir <+: other ++ [name] := by
      intro isPrefix
      rcases List.prefix_concat_iff.mp isPrefix with rfl | isPrefix
      · exact apart' (List.prefix_append _ _)
      · exact apart isPrefix
    have above : ¬ other ++ [name] <+: dir :=
      fun isPrefix => apart' ((List.prefix_append _ _).trans isPrefix)
    refine ⟨(outside _ below).find above, fun upper isUpper => ?_⟩
    rcases List.prefix_concat_iff.mp isUpper with rfl | isUpper
    · exact (outside _ below).readFile
    · exact (outside _ (high upper isUpper)).readFile
  simp only [Library.shelved, held_congr _ (same _)]

/-- No file comes to lie above a directory. -/
theorem Outside.clear (outside : Outside dir before after) (apart : dir <+: other → dir = other)
    (clear : Clear other before) : Clear other after := by
  intro upper isUpper proper
  have below : ¬ dir <+: upper := by
    intro isPrefix
    obtain rfl := apart (isPrefix.trans isUpper)
    exact proper (isUpper.eq_of_length_le isPrefix.length_le)
  rw [(outside upper below).readFile, clear upper isUpper proper]

end Frames

/-! ## Deletions -/

section Deletions

variable {dir : Path} {name : String} {before after : Disk}

theorem held_of_absent {decode : Document → Option α} (clear : Clear dir after)
    (noFile : after.readFile dir = none) (absent : after.find (dir ++ [name]) = none) :
    held after (dir ++ [name]) decode = .missing := by
  have missing : Layout.notExist after (dir ++ [name]) = true := by
    rw [Layout.notExist, Bool.and_eq_true, decide_eq_true_eq, List.all_eq_true]
    refine ⟨absent, fun upper member => ?_⟩
    rw [Option.isNone_iff_eq_none]
    rcases List.prefix_concat_iff.mp ((List.mem_inits _ _).mp member) with rfl | isUpper
    · rw [FileTree.readFile, absent]
    · by_cases own : upper = dir
      · rw [own, noFile]
      · exact clear upper isUpper own
  rw [held, if_pos missing]

theorem shelved_removeAll (proper : dir ≠ []) (clear : Clear dir before) :
    shelved (before.removeAll dir) dir = ⟨.missing, .missing, .missing⟩ := by
  have find := FileTree.find_removeAll (t := before) proper
  have outside : Outside dir before (before.removeAll dir) :=
    .of_find fun q below => by rw [find, if_neg below]
  have clear' := outside.clear (fun _ => rfl) clear
  have noFile : FileTree.readFile (before.removeAll dir) dir = none := by
    rw [FileTree.readFile, find, if_pos (List.prefix_refl dir)]
  have absent (name : String) : FileTree.find (before.removeAll dir) (dir ++ [name]) = none := by
    rw [find, if_pos (List.prefix_append _ _)]
  simp only [shelved, held_of_absent clear' noFile (absent _)]

/-- One file or empty directory is removed. -/
theorem held_remove {path : Path} (proper : dir ≠ []) (below : dir <+: path)
    (clear : Clear dir before) (removed : before.remove path = some after)
    (decode : Document → Option α) :
    (held before (dir ++ [name]) decode).PartlyGone (held after (dir ++ [name]) decode) := by
  have notRoot : path ≠ [] := by
    rintro rfl
    exact proper (List.prefix_nil.mp below)
  have find := FileTree.find_remove notRoot removed
  have outside : Outside dir before after := .of_find fun q notBelow => by
    rw [find, if_neg]
    rintro rfl
    exact notBelow below
  have clear' := outside.clear (fun _ => rfl) clear
  by_cases own : path = dir
  · refine .inr (held_of_absent clear' ?_ ?_)
    · rw [FileTree.readFile, find, if_pos own.symm]
    · cases found : after.find (dir ++ [name]) with
      | none => rfl
      | some node =>
          have isDirectory := FileTree.parent found
          rw [find, if_pos own.symm] at isDirectory
          contradiction
  · have same : after.find dir = before.find dir := by rw [find, if_neg (Ne.symm own)]
    by_cases target : path = dir ++ [name]
    · have absent : after.find (dir ++ [name]) = none := by rw [find, if_pos target.symm]
      cases found : before.find (dir ++ [name]) with
      | some node =>
          refine .inr (held_of_absent clear' ?_ absent)
          rw [FileTree.readFile, same, FileTree.parent found]
      | none =>
          refine .inl (held_congr decode ⟨absent.trans found.symm, fun upper isUpper => ?_⟩)
          have stays : after.find upper = before.find upper := by
            rw [find]
            split
            · rename_i isTarget
              rw [isTarget, target, found]
            · rfl
          rw [FileTree.readFile, FileTree.readFile, stays]
    · refine .inl (held_congr decode ⟨?_, fun upper isUpper => ?_⟩)
      · rw [find, if_neg (Ne.symm target)]
      · have other : upper ≠ path := by
          rintro rfl
          rcases List.prefix_concat_iff.mp isUpper with same | isUpper
          · exact target same
          · exact own (isUpper.eq_of_length_le below.length_le)
        rw [FileTree.readFile, FileTree.readFile, find, if_neg other]

theorem Held.PartlyGone.trans {first middle last : Held α} (early : first.PartlyGone middle)
    (late : middle.PartlyGone last) : first.PartlyGone last := by
  rcases late with rfl | rfl
  · exact early
  · exact .inr rfl

/-- What a deletion that has gone wrong leaves. -/
theorem removeSome_leaves (proper : dir ≠ []) (removed : List Path) {disk : Disk}
    (clear : Clear dir disk) :
    Outside dir disk (removeSome dir removed disk) ∧
      ∀ (α : Type) (name : String) (decode : Document → Option α),
        (held disk (dir ++ [name]) decode).PartlyGone
          (held (removeSome dir removed disk) (dir ++ [name]) decode) := by
  induction removed generalizing disk with
  | nil => exact ⟨fun q _ => .refl dir q disk, fun _ _ _ => .inl rfl⟩
  | cons path paths induction =>
      rw [removeSome]
      split
      · rename_i below
        cases gone : disk.remove path with
        | none => exact induction clear
        | some next =>
            have notRoot : path ≠ [] := by
              rintro rfl
              exact proper (List.prefix_nil.mp below)
            have outside : Outside dir disk next := .of_find fun q notBelow => by
              rw [FileTree.find_remove notRoot gone, if_neg]
              rintro rfl
              exact notBelow below
            have later := induction (outside.clear (fun _ => rfl) clear)
            refine ⟨fun q notBelow => (outside q notBelow).trans (later.1 q notBelow), ?_⟩
            exact fun α name decode =>
              (held_remove proper below clear gone decode).trans (later.2 α name decode)
      · exact induction clear

end Deletions

/-! ## One call -/

section Calls

variable {l : Layout} {dir : Path} {f f' : Files Document} {event : LibraryEvent}
  {reply : Option LibraryReply} {refused : Bool} {call : LibraryCall}

/-- A call that is not a deletion has run, or the process has ended in it. -/
theorem LibraryStep.cases (step : LibraryStep l f ⟨call, reply, refused⟩ f')
    (stays : ∀ id, call ≠ .deleteManga id) :
    (∃ choices value, (call.program l).run Files.respond f choices = some (value, f') ∧
      reply = some value ∧ refused = choices.any FileChoice.isRefusal) ∨
    (call.program l).Reaches Files.respond f f' ∧ reply = none := by
  cases step with
  | returns ran => exact .inl ⟨_, _, ran, rfl, rfl⟩
  | stops refused reached => exact .inr ⟨reached, rfl⟩
  | deletes located removed undone => exact absurd rfl (stays _)

theorem tree_of_reaches {program : Alone α} {post : α → Prop}
    (reads : program.Calls FileCall.Reads post) (reached : program.Reaches Files.respond f f') :
    f'.tree = f.tree := by
  refine reads.reaches (fun next => next.tree = f.tree) ?_ reached rfl
  intro state c choice reply next onlyReads same responded
  have one : (Program.perform c : Alone _).run Files.respond state [choice] = some (reply, next) :=
    Program.run_call.mpr ⟨choice, [], reply, next, rfl, responded, rfl⟩
  exact (tree_of_reads (Program.calls_perform onlyReads) one).trans same

/-- A call that reads one file. -/
theorem reads_allowed {program : Alone (Option α)} {stored : Disk → Option α}
    {wrap : Option α → LibraryReply} {post : Option α → Prop}
    (isCall : call.program l = program >>= fun value => .done (wrap value))
    (reads : ReadsAs program stored (· = none)) (onlyReads : program.Calls FileCall.Reads post)
    (stays : ∀ id, call ≠ .deleteManga id) (step : LibraryStep l f ⟨call, reply, refused⟩ f') :
    f'.tree = f.tree ∧ (reply = none ∨ reply = some (wrap (stored f.tree)) ∨
      refused = true ∧ reply = some (wrap none)) := by
  rcases step.cases stays with ⟨choices, value, ran, rfl, rfl⟩ | ⟨reached, rfl⟩
  · rw [isCall, Program.run_map] at ran
    rcases ran with ⟨found, ran, rfl⟩
    rcases reads ran with ⟨same, rfl | ⟨rfl, refused⟩⟩
    · exact ⟨same, .inr (.inl rfl)⟩
    · exact ⟨same, .inr (.inr ⟨List.any_eq_true.mpr refused, rfl⟩)⟩
  · rw [isCall, Program.reaches_map] at reached
    exact ⟨tree_of_reaches onlyReads reached, .inl rfl⟩

/-- A call that writes files one after the other. -/
theorem saves_allowed {id : String} {files : List (String × Document)}
    (isCall : call.program l = Effects.saveFiles l id files >>= fun ok => .done (.saved ok))
    (located : l.mangaDir id = .ok dir) (named : ∀ file ∈ files, file.1 ∈ concernFiles)
    (distinct : (files.map (·.1)).Nodup) (stays : ∀ id, call ≠ .deleteManga id)
    (step : LibraryStep l f ⟨call, reply, refused⟩ f') :
    Outside dir f.tree f'.tree ∧
      LibraryEvent.Allows.Saves (shelved f.tree dir) (shelved f'.tree dir) files reply := by
  rcases step.cases stays with ⟨choices, value, ran, rfl, rfl⟩ | ⟨reached, rfl⟩
  · rw [isCall, Program.run_map] at ran
    rcases ran with ⟨saved, ran, rfl⟩
    rcases saveFiles_rewrites located named distinct ran with ⟨done, rest, parts, partly, ended⟩
    refine ⟨partly.outside, done, rest, parts, partly.shelved, .inr ?_⟩
    cases rest with
    | nil => rw [ended.mpr rfl, List.isEmpty_nil]
    | cons file rest => simpa using ended
  · rw [isCall, Program.reaches_map] at reached
    rcases saveFiles_reaches located named distinct reached with ⟨done, rest, parts, partly⟩
    exact ⟨partly.outside, done, rest, parts, partly.shelved, .inl rfl⟩

theorem saveBindings_eq (id : String) (b : MangaBindings) :
    (Effects.saveBindings l id b : Alone Bool) =
      Effects.saveFiles l id [("bindings.json", .bindings b.normalize)] := by
  rw [Effects.saveFiles_singleton]
  rfl

theorem write_bindings (s : Shelved) (b : MangaBindings) :
    s.write ("bindings.json", .bindings b) = { s with bindings := .value b } := by
  simp [Shelved.write, Held.ofDocument, Document.bindings?]

/-- The bindings are written or they are not. -/
theorem bindings_written {b : MangaBindings} {done rest : List (String × Document)}
    (parts : [("bindings.json", .bindings b)] = done ++ rest)
    (partly : PartlyWritten dir done rest f.tree f'.tree) :
    rest ≠ [] ∧ shelved f'.tree dir = shelved f.tree dir ∨
      rest = [] ∧ shelved f'.tree dir = { shelved f.tree dir with bindings := .value b } := by
  rcases List.singleton_eq_append_iff.mp parts with ⟨rfl, rfl⟩ | ⟨rfl, rfl⟩
  · exact .inl ⟨List.cons_ne_nil _ _, partly.shelved⟩
  · exact .inr ⟨rfl, partly.shelved.trans (write_bindings _ b)⟩

/-- What is left of the locked section when the bindings have been read. -/
def saveChange (l : Layout) (id : String) : Except String MangaBindings →
    Alone (Except BindingsError Unit)
  | .error message => pure (.error (.refused message))
  | .ok changed => do
      if ← Effects.saveBindings l id changed then pure (.ok ()) else pure (.error .unsaved)

theorem saveChange_named (b : MangaBindings) :
    ∀ file ∈ [("bindings.json", Document.bindings b)], file.1 ∈ concernFiles := by
  simp [concernFiles]

theorem saveChange_run {id : String} {change : Except String MangaBindings}
    {choices : List (FileChoice fun _ : Empty => Unit)} {result : Except BindingsError Unit}
    (located : l.mangaDir id = .ok dir)
    (ran : (saveChange l id change).run Files.respond f choices = some (result, f')) :
    Outside dir f.tree f'.tree ∧
      LibraryEvent.Allows.Changes (shelved f.tree dir) (shelved f'.tree dir) change
        (some (.updated result)) := by
  cases change with
  | error message =>
      rcases Program.run_done.mp ran with ⟨_, rfl, rfl⟩
      exact ⟨fun q _ => .refl dir q _, rfl, rfl⟩
  | ok changed =>
      rcases Program.run_bind.mp ran with ⟨_, _, saved, f₁, _, ran, ended⟩
      rw [saveBindings_eq] at ran
      rcases saveFiles_rewrites located (saveChange_named _) (List.nodup_singleton _) ran with
        ⟨done, rest, parts, partly, wrote⟩
      rcases bindings_written parts partly with ⟨more, same⟩ | ⟨nothing, same⟩
      · have unsaved : saved = false := by simpa [more] using wrote
        subst unsaved
        rcases Program.run_done.mp ended with ⟨_, rfl, rfl⟩
        exact ⟨partly.outside, .inl ⟨same, rfl⟩⟩
      · obtain rfl := wrote.mpr nothing
        rcases Program.run_done.mp ended with ⟨_, rfl, rfl⟩
        exact ⟨partly.outside, .inr ⟨same, .inr rfl⟩⟩

theorem saveChange_reaches {id : String} {change : Except String MangaBindings}
    (located : l.mangaDir id = .ok dir)
    (reached : (saveChange l id change).Reaches Files.respond f f') :
    Outside dir f.tree f'.tree ∧ (shelved f'.tree dir = shelved f.tree dir ∨
      LibraryEvent.Allows.Changes (shelved f.tree dir) (shelved f'.tree dir) change none) := by
  cases change with
  | error message =>
      rw [← Program.reaches_done.mp reached]
      exact ⟨fun q _ => .refl dir q _, .inl rfl⟩
  | ok changed =>
      have saving : (Effects.saveBindings l id changed : Alone Bool).Reaches Files.respond f f' := by
        rcases Program.reaches_bind.mp reached with early | ⟨choices, saved, f₁, ran, late⟩
        · exact early
        · cases saved <;>
            · rw [← Program.reaches_done.mp late]
              exact .of_run ran
      rw [saveBindings_eq] at saving
      rcases saveFiles_reaches located (saveChange_named _) (List.nodup_singleton _) saving with
        ⟨done, rest, parts, partly⟩
      rcases bindings_written parts partly with ⟨_, same⟩ | ⟨_, same⟩
      · exact ⟨partly.outside, .inl same⟩
      · exact ⟨partly.outside, .inr (.inr ⟨same, .inl rfl⟩)⟩

/-- The locked section that changes the bindings. -/
theorem updateBindings_allowed {id : String} {change : MangaBindings → Except String MangaBindings}
    (located : l.mangaDir id = .ok dir)
    (step : LibraryStep l f ⟨.updateBindings id change, reply, refused⟩ f') :
    Outside dir f.tree f'.tree ∧
      LibraryEvent.Allows l (shelved f.tree dir) (shelved f'.tree dir)
        ⟨.updateBindings id change, reply, refused⟩ := by
  have stored := @getBindings_shelved l id dir f.tree located
  have unchanged {disk : Disk} (same : disk = f.tree) : Outside dir f.tree disk :=
    .of_find fun q _ => by rw [same]
  have isCall : (LibraryCall.updateBindings id change).program l =
      (Effects.getBindings l id >>= fun found =>
        match found with
        | none => .done (.error .unreadable)
        | some bindings => saveChange l id (change bindings)) >>=
          fun result => .done (.updated result) := by
    refine congrArg (· >>= _) (congrArg (Effects.getBindings l id >>= ·) (funext fun found => ?_))
    cases found with
    | none => rfl
    | some bindings => cases change bindings <;> rfl
  rcases step.cases (by simp) with ⟨choices, value, ran, rfl, rfl⟩ | ⟨reached, rfl⟩
  · rw [isCall, Program.run_map] at ran
    rcases ran with ⟨result, ran, rfl⟩
    rcases Program.run_bind.mp ran with ⟨reading, writing, found, f₁, rfl, reads, ran⟩
    rcases Effects.getBindings_readsAs l id reads with ⟨sameTree, what⟩
    change found = l.getBindings f.tree id ∨ found = none ∧ Refused reading at what
    rw [stored] at what
    cases found with
    | none =>
        rcases Program.run_done.mp ran with ⟨rfl, rfl, rfl⟩
        refine ⟨unchanged sameTree, ?_⟩
        rw [LibraryEvent.Allows, sameTree]
        rcases what with unreadable | ⟨_, refused⟩
        · rw [← unreadable]
          exact .inr ⟨rfl, rfl⟩
        · rw [List.append_nil]
          exact .inl ⟨rfl, .inr ⟨List.any_eq_true.mpr refused, rfl⟩⟩
    | some b =>
        have readable := what.resolve_right fun gaveUp => by simp at gaveUp
        have saved := saveChange_run located ran
        rw [sameTree] at saved
        rw [LibraryEvent.Allows, ← readable]
        exact ⟨saved.1, .inr saved.2⟩
  · rw [isCall, Program.reaches_map] at reached
    rw [LibraryEvent.Allows]
    have early {f₁ : Files Document} (reached : (Effects.getBindings l id : Alone _).Reaches
        Files.respond f f₁) : f₁.tree = f.tree :=
      tree_of_reaches (Reads.onlyReads (Effects.getBindings_reads fun _ _ => trivial)) reached
    rcases Program.reaches_bind.mp reached with reading | ⟨choices, found, f₁, ran, late⟩
    · have same := early reading
      exact ⟨unchanged same, .inl ⟨by rw [same], .inl rfl⟩⟩
    · rcases Effects.getBindings_readsAs l id ran with ⟨sameTree, what⟩
      cases found with
      | none =>
          rw [← Program.reaches_done.mp late]
          exact ⟨unchanged sameTree, .inl ⟨by rw [sameTree], .inl rfl⟩⟩
      | some b =>
          have readable := what.resolve_right fun gaveUp => by simp at gaveUp
          change some b = l.getBindings f.tree id at readable
          rw [stored] at readable
          have saved := saveChange_reaches located late
          rw [sameTree] at saved
          rw [← readable]
          rcases saved with ⟨outside, same | changes⟩
          · exact ⟨outside, .inl ⟨same, .inl rfl⟩⟩
          · exact ⟨outside, .inr changes⟩

theorem deleteManga_allowed {id : String} (located : l.mangaDir id = .ok dir)
    (clear : Clear dir f.tree) (step : LibraryStep l f ⟨.deleteManga id, reply, refused⟩ f') :
    Outside dir f.tree f'.tree ∧
      LibraryEvent.Allows l (shelved f.tree dir) (shelved f'.tree dir)
        ⟨.deleteManga id, reply, refused⟩ := by
  have proper := Layout.mangaDir_ne_nil located
  have removed : Outside dir f.tree (f.tree.removeAll dir) :=
    .of_find fun q below => by rw [FileTree.find_removeAll proper, if_neg below]
  have gone := shelved_removeAll proper clear
  have isCall : (LibraryCall.deleteManga id).program l =
      .call (.removeAll dir) fun removed => .done (.deleted (succeeds removed)) := by
    simp only [LibraryCall.program, Effects.deleteManga, located]
    refine congrArg (Program.call _) (funext fun removed => ?_)
    cases removed <;> rfl
  have responds {choice : FileChoice fun _ : Empty => Unit} {removed : Except FileError Unit}
      {f₁ : Files Document} (responded : f.respond (.removeAll dir) choice = some (removed, f₁)) :
      removed = .ok () ∧ f₁.tree = f.tree.removeAll dir ∨
        (∃ why, removed = .error why) ∧ f₁.tree = f.tree := by
    cases choice with
    | answer question answer => contradiction
    | grant suffix =>
        cases responded
        exact .inl ⟨rfl, rfl⟩
    | refuse made =>
        cases responded
        exact .inr ⟨⟨_, rfl⟩, rfl⟩
  have stays : Outside dir f.tree f.tree := fun q _ => .refl dir q _
  rw [LibraryEvent.Allows]
  cases step with
  | returns ran =>
      rw [isCall] at ran
      rcases Program.run_call.mp ran with ⟨choice, rest, result, f₁, rfl, responded, ran⟩
      rcases Program.run_done.mp ran with ⟨_, rfl, rfl⟩
      rcases responds responded with ⟨rfl, same⟩ | ⟨⟨why, rfl⟩, same⟩
      · rw [same]
        exact ⟨removed, .inl ⟨gone, rfl⟩⟩
      · rw [same]
        exact ⟨stays, .inr ⟨.inr rfl, .inl rfl, .inl rfl, .inl rfl⟩⟩
  | stops _ reached =>
      rw [isCall] at reached
      rcases Program.reaches_call.mp reached with rfl | ⟨choice, result, f₁, responded, reached⟩
      · exact ⟨stays, .inr ⟨.inl rfl, .inl rfl, .inl rfl, .inl rfl⟩⟩
      · rw [← Program.reaches_done.mp reached]
        rcases responds responded with ⟨_, same⟩ | ⟨_, same⟩
        · rw [same, gone]
          exact ⟨removed, .inr ⟨.inl rfl, .inr rfl, .inr rfl, .inr rfl⟩⟩
        · rw [same]
          exact ⟨stays, .inr ⟨.inl rfl, .inl rfl, .inl rfl, .inl rfl⟩⟩
  | deletes located' paths undone =>
      rw [located] at located'
      cases located'
      rcases removeSome_leaves proper paths clear with ⟨outside, partly⟩
      refine ⟨outside, .inr ⟨?_, partly _ _ _, partly _ _ _, partly _ _ _⟩⟩
      cases reply with
      | none => exact .inl rfl
      | some ok => exact .inr (congrArg some (undone ok rfl))

/-- A call with an id that has no directory. -/
theorem program_of_error {error : PathError} (noDir : l.mangaDir call.id = .error error) :
    call.program l = .done call.failure := by
  cases call with
  | getMetadata id | getUserState id | getBindings id | saveMetadata id | saveUserState id
  | saveBindings id | updateBindings id | saveManga id | deleteManga id =>
      simp only [LibraryCall.id] at noDir
      simp only [LibraryCall.program, LibraryCall.failure, Effects.getMetadata, Effects.getUserState,
        Effects.getBindings, Effects.saveMetadata, Effects.saveUserStateLocked,
        Effects.saveLocked, Effects.saveBindings, Effects.updateBindings, Effects.saveManga,
        Effects.saveMetadataLocked, Effects.deleteManga, noDir]
      rfl

theorem getMetadata_onlyReads (l : Layout) (id : String) :
    (Effects.getMetadata l id : Alone _).Calls FileCall.Reads fun _ => True := by
  unfold Effects.getMetadata
  split
  · exact trivial
  · refine Reads.onlyReads (?_ : Reads (fun _ => True) _ _)
    exact readConcernFile_reads trivial _ _ _

theorem getUserState_onlyReads (l : Layout) (id : String) :
    (Effects.getUserState l id : Alone _).Calls FileCall.Reads fun _ => True := by
  unfold Effects.getUserState
  split
  · exact trivial
  · refine Reads.onlyReads (?_ : Reads (fun _ => True) _ _)
    exact readConcernFile_reads trivial _ _ _

/-- What a call does to the files of its manga, and that it leaves all else. -/
theorem LibraryStep.allowed (step : LibraryStep l f event f')
    (located : l.mangaDir event.call.id = .ok dir) (clear : Clear dir f.tree) :
    Outside dir f.tree f'.tree ∧ event.Allows l (shelved f.tree dir) (shelved f'.tree dir) := by
  rcases event with ⟨call, reply, refused⟩
  cases call with
  | getMetadata id =>
      change l.mangaDir id = .ok dir at located
      have reads := reads_allowed rfl (Effects.getMetadata_readsAs l id) (getMetadata_onlyReads l id)
        (by simp) step
      rw [getMetadata_shelved located] at reads
      rw [LibraryEvent.Allows, reads.1]
      exact ⟨fun q _ => .refl dir q _, rfl, reads.2⟩
  | getUserState id =>
      change l.mangaDir id = .ok dir at located
      have reads := reads_allowed rfl (Effects.getUserState_readsAs l id)
        (getUserState_onlyReads l id) (by simp) step
      rw [getUserState_shelved located] at reads
      rw [LibraryEvent.Allows, reads.1]
      exact ⟨fun q _ => .refl dir q _, rfl, reads.2⟩
  | getBindings id =>
      change l.mangaDir id = .ok dir at located
      have onlyReads : (Effects.getBindings l id : Alone _).Calls FileCall.Reads fun _ => True :=
        Reads.onlyReads (Effects.getBindings_reads fun _ _ => trivial)
      have reads := reads_allowed rfl (Effects.getBindings_readsAs l id) onlyReads (by simp) step
      rw [getBindings_shelved located] at reads
      rw [LibraryEvent.Allows, reads.1]
      exact ⟨fun q _ => .refl dir q _, rfl, reads.2⟩
  | saveMetadata id m =>
      refine saves_allowed ?_ located ?_ (List.nodup_singleton _) (by simp) step
      · rw [Effects.saveFiles_singleton]
        rfl
      · simp [concernFiles]
  | saveUserState id u now =>
      refine saves_allowed ?_ located ?_ (List.nodup_singleton _) (by simp) step
      · rw [Effects.saveFiles_singleton]
        rfl
      · simp [concernFiles]
  | saveBindings id b =>
      refine saves_allowed ?_ located ?_ (List.nodup_singleton _) (by simp) step
      · rw [Effects.saveFiles_singleton]
        rfl
      · simp [concernFiles]
  | updateBindings id change => exact updateBindings_allowed located step
  | saveManga id info now =>
      exact saves_allowed rfl located (mangaFiles_named info now) (by simp [Layout.mangaFiles])
        (by simp) step
  | deleteManga id => exact deleteManga_allowed located clear step

theorem LibraryStep.unlocated {error : PathError} (step : LibraryStep l f event f')
    (noDir : l.mangaDir event.call.id = .error error) :
    f' = f ∧ ∀ reply ∈ event.reply, reply = event.call.failure := by
  cases step with
  | returns ran =>
      rw [program_of_error noDir] at ran
      rcases Program.run_done.mp ran with ⟨_, fails, rfl⟩
      refine ⟨rfl, fun reply isReply => ?_⟩
      rw [← Option.mem_some.mp isReply, fails]
  | stops refused reached =>
      rw [program_of_error noDir] at reached
      exact ⟨(Program.reaches_done.mp reached).symm, by simp⟩
  | deletes located removed undone =>
      have isDir := located.symm.trans noDir
      contradiction

end Calls

/-! ## Whole histories -/

section Histories

variable {l : Layout} {f f' : Files Document}

/-- The directory of a manga that some call of the history is about. -/
def Uses (l : Layout) (events : List LibraryEvent) (dir : Path) : Prop :=
  ∃ event ∈ events, l.mangaDir event.call.id = .ok dir

/-- The store shows what the library holds of the manga. -/
def Shows (used : Path → Prop) (f : Files Document) (store : MangaStore) : Prop :=
  ∀ dir, used dir → Clear dir f.tree ∧ store dir = shelved f.tree dir

/-- The store follows a step of the library. -/
theorem LibraryStep.follows {used : Path → Prop} {event : LibraryEvent} {store : MangaStore}
    (apart : ∀ dir other, used dir → used other → dir <+: other → dir = other)
    (isUsed : ∀ dir, l.mangaDir event.call.id = .ok dir → used dir) (shows : Shows used f store)
    (step : LibraryStep l f event f') :
    ∃ store', MangaStore.Step l store event store' ∧ Shows used f' store' := by
  cases located : l.mangaDir event.call.id with
  | error error =>
      rcases step.unlocated located with ⟨rfl, fails⟩
      exact ⟨store, .refused located fails, shows⟩
  | ok dir =>
      have isDir := isUsed dir located
      rcases shows dir isDir with ⟨clear, same⟩
      rcases step.allowed located clear with ⟨outside, allowed⟩
      rw [← same] at allowed
      refine ⟨Function.update store dir (shelved f'.tree dir), .located located allowed, ?_⟩
      intro other isOther
      refine ⟨outside.clear (apart dir other isDir isOther) (shows other isOther).1, ?_⟩
      by_cases own : other = dir
      · rw [own, Function.update_self]
      · rw [Function.update_of_ne own, (shows other isOther).2]
        exact (outside.shelved (fun below => own (apart dir other isDir isOther below).symm)
          fun above => own (apart other dir isOther isDir above)).symm

/-- Where the directories of the manga do not lie in each other, and no file in their way,
every history of the library is one of the store: whatever fails and wherever the process
ends. -/
theorem library_refines_store {events : List LibraryEvent}
    (apart : ∀ dir other, Uses l events dir → Uses l events other → dir <+: other → dir = other)
    (clear : ∀ dir, Uses l events dir → Clear dir f.tree)
    (run : Trace (LibraryStep l) f events f') :
    ∃ store, Trace (MangaStore.Step l) (shelved f.tree) events store ∧
      ∀ dir, Uses l events dir → store dir = shelved f'.tree dir := by
  have follows : ∀ f event f' store, event ∈ events → Shows (Uses l events) f store →
      LibraryStep l f event f' →
      ∃ store', MangaStore.Step l store event store' ∧ Shows (Uses l events) f' store' :=
    fun f event f' store member shows step =>
      step.follows apart (fun dir located => ⟨event, member, located⟩) shows
  have initially : Shows (Uses l events) f (shelved f.tree) := fun dir isDir => ⟨clear dir isDir, rfl⟩
  rcases run.simulate (Shows (Uses l events)) follows (fun _ member => member) initially with
    ⟨store, followed, shows⟩
  exact ⟨store, followed, fun dir isDir => (shows dir isDir).2⟩

end Histories

/-- A save in which the process ends before the user state is in place, and what the title
then reads. -/
theorem library_refines_store_interrupted :
    ∃ (f' : Files Document) (reply : LibraryReply) (store : MangaStore),
      Trace (MangaStore.Step shelf) (shelved storedManga)
        [⟨.saveManga "m" renamedManga Time.zero, none, false⟩, ⟨.getMetadata "m", some reply, false⟩]
        store ∧ store ["library", "m"] = shelved f'.tree ["library", "m"] := by
  have located : shelf.mangaDir "m" = .ok ["library", "m"] := by decide +kernel
  have went : (((LibraryCall.saveManga "m" renamedManga Time.zero).program shelf).after Files.respond
      (Files.ofTree storedManga) (List.replicate 7 (.grant ""))).any (fun f =>
        (((LibraryCall.getMetadata "m").program shelf).run Files.respond f [.grant ""]).isSome) =
      true := by decide +kernel
  rcases (Option.any_eq_true _ _).mp went with ⟨f₁, left, reads⟩
  rcases Option.isSome_iff_exists.mp reads with ⟨⟨reply, f'⟩, ran⟩
  have only : ∀ dir, Uses shelf [⟨.saveManga "m" renamedManga Time.zero, none, false⟩,
      ⟨.getMetadata "m", some reply, false⟩] dir → dir = ["library", "m"] := by
    rintro dir ⟨event, member, isDir⟩
    have isM : event.call.id = "m" := by
      rcases List.mem_pair.mp member with rfl | rfl <;> rfl
    rw [isM, located] at isDir
    exact (Except.ok.inj isDir).symm
  have clear : Clear ["library", "m"] storedManga := by
    intro upper isUpper proper
    have isOne : upper ∈ [[], ["library"], ["library", "m"]] := (List.mem_inits _ _).mpr isUpper
    simp only [List.mem_cons, List.not_mem_nil, or_false] at isOne
    rcases isOne with rfl | rfl | rfl
    · decide +kernel
    · decide +kernel
    · exact absurd rfl proper
  have run : Trace (LibraryStep shelf) (Files.ofTree storedManga)
      [⟨.saveManga "m" renamedManga Time.zero, none, false⟩, ⟨.getMetadata "m", some reply, false⟩]
      f' := .cons (.stops false (.of_after left)) (.cons (.returns ran) (.nil f'))
  rcases library_refines_store (fun dir other isDir isOther _ => (only dir isDir).trans
    (only other isOther).symm) (fun dir isDir => only dir isDir ▸ clear) run with ⟨store, followed, shows⟩
  exact ⟨f', reply, store, followed, shows _ ⟨_, List.mem_cons_self, located⟩⟩

end Kiyomi.Library
