import Kiyomi.Foundation.Run
import Kiyomi.Library.BindingSections
import Kiyomi.Library.MangaSaves

namespace Kiyomi.Library

open Go

/-! # Reading a manga while it is saved

`GetManga` takes the read lock once for each file, and `SaveManga` holds the lock from its first
file to its last. -/

/-- The contents of the three files, where they can be read. -/
structure MangaContents where
  metadata : Option MangaMetadata
  userState : Option UserState
  bindings : Option MangaBindings
  deriving DecidableEq

def Manga.contents (m : Manga) : MangaContents :=
  ⟨some m.metadata, some m.userState, some m.bindings⟩

namespace Layout

variable (l : Layout)

/-- What can be read of a manga. -/
def stored (disk : Disk) (id : String) : MangaContents :=
  ⟨l.getMetadata disk id, l.getUserState disk id, l.getBindings disk id⟩

/-- What can be read when `SaveManga` has written all files. -/
def savedContents (info : Manga) (now : Time) : MangaContents :=
  ⟨some (info.metadata.saved l.toLower), some (info.userState.saved now),
    some info.bindings.normalize⟩

end Layout

/-- How far a call of `GetManga` is. -/
inductive GetMangaCall
  | started
  | found
  | metadataRead (metadata : MangaMetadata)
  | userStateRead (metadata : MangaMetadata) (userState : UserState)
  | returned (result : Option Manga)

namespace GetMangaCall

variable (l : Layout) (id : String)

/-- The check for the file, or one section under the lock. -/
def next (disk : Disk) : GetMangaCall → GetMangaCall
  | .started =>
      match l.mangaDir id with
      | .error _ => .returned none
      | .ok dir =>
          if (disk.find (dir ++ ["metadata.json"])).isNone then .returned none else .found
  | .found =>
      match l.getMetadata disk id with
      | none => .returned none
      | some metadata => .metadataRead metadata
  | .metadataRead metadata =>
      match l.getUserState disk id with
      | none => .returned none
      | some userState => .userStateRead metadata userState
  | .userStateRead metadata userState =>
      match l.getBindings disk id with
      | none => .returned none
      | some bindings => .returned (some { id, metadata, userState, bindings })
  | .returned result => .returned result

/-- The end of a call that nothing interrupts any more. -/
def alone (disk : Disk) (call : GetMangaCall) : GetMangaCall :=
  (((call.next l id disk).next l id disk).next l id disk).next l id disk

/-- What a call would return that finds the contents for all it has not read yet. -/
def mixture : GetMangaCall → MangaContents → MangaContents
  | .started, contents | .found, contents | .returned none, contents => contents
  | .metadataRead metadata, contents => { contents with metadata := some metadata }
  | .userStateRead metadata userState, contents =>
      { contents with metadata := some metadata, userState := some userState }
  | .returned (some manga), _ => manga.contents

end GetMangaCall

/-- The files of a manga, the calls of `GetManga`, and the contents that the manga had at first
and then got from a save. -/
structure MangaSystem where
  files : Files Document
  calls : List GetMangaCall
  written : List MangaContents

inductive MangaAction
  | getManga
  | proceed (position : Nat)
  | saveManga (info : Manga) (now : Time) (choices : List (FileChoice fun _ : Empty => Unit))

namespace MangaSystem

variable (l : Layout) (id : String)

/-- The saves that fail are left out. -/
def step : StepFunction MangaSystem MangaAction
  | s, .getManga => some { s with calls := s.calls ++ [.started] }
  | s, .proceed position =>
      match focus position s.calls with
      | none => none
      | some (before, call, after) =>
          some { s with calls := before ++ call.next l id s.files.tree :: after }
  | s, .saveManga info now choices =>
      match (Effects.saveManga l id info now : Alone Bool).run Files.respond s.files choices with
      | some (true, files) => some { s with files, written := l.savedContents info now :: s.written }
      | _ => none

/-- Nothing is under way. -/
def initial (disk : Disk) : MangaSystem := ⟨.ofTree disk, [], [l.stored disk id]⟩

/-- What a call has returned, or will when it goes on alone, one save has written. -/
def Whole (s : MangaSystem) : Prop :=
  ∀ call ∈ s.calls, ∀ manga, call.alone l id s.files.tree = .returned (some manga) →
    manga.contents ∈ s.written

/-- For each call, the save writes what the call has read, or leaves what it has yet to read,
or another save has written the mixture of both. -/
def SparesCalls (s : MangaSystem) : MangaAction → Prop
  | .saveManga info now _ =>
      ∀ call ∈ s.calls,
        call.mixture (l.savedContents info now) = l.savedContents info now ∨
        call.mixture (l.savedContents info now) = call.mixture (l.stored s.files.tree id) ∨
        call.mixture (l.savedContents info now) ∈ s.written
  | _ => True

instance (s : MangaSystem) : (action : MangaAction) → Decidable (s.SparesCalls l id action)
  | .getManga | .proceed _ => .isTrue trivial
  | .saveManga .. => inferInstanceAs (Decidable (∀ call ∈ s.calls, _))

end MangaSystem

variable {l : Layout} {id : String}

/-! ## One call -/

namespace GetMangaCall

variable {disk : Disk} {call : GetMangaCall}

/-- How many steps a call takes at most. -/
def left : GetMangaCall → Nat
  | .started => 4
  | .found => 3
  | .metadataRead _ => 2
  | .userStateRead _ _ => 1
  | .returned _ => 0

theorem left_next (disk : Disk) (call : GetMangaCall) :
    (call.next l id disk).left ≤ call.left - 1 := by
  cases call with
  | started =>
      simp only [next]
      split
      · exact Nat.zero_le _
      · split
        · exact Nat.zero_le _
        · exact Nat.le_refl _
  | found | metadataRead _ | userStateRead _ _ =>
      simp only [next]
      split
      · exact Nat.zero_le _
      · exact Nat.le_refl _
  | returned _ => exact Nat.le_refl _

theorem alone_ends (disk : Disk) (call : GetMangaCall) :
    ∃ result, call.alone l id disk = .returned result := by
  have bound : call.left ≤ 4 := by cases call <;> simp [left]
  have ended : (call.alone l id disk).left = 0 := by
    have first := @left_next l id disk call
    have second := @left_next l id disk (call.next l id disk)
    have third := @left_next l id disk ((call.next l id disk).next l id disk)
    have last := @left_next l id disk (((call.next l id disk).next l id disk).next l id disk)
    rw [alone]
    omega
  cases final : call.alone l id disk with
  | returned result => exact ⟨result, rfl⟩
  | started | found | metadataRead _ | userStateRead _ _ => simp [final, left] at ended

theorem alone_next : (call.next l id disk).alone l id disk = call.alone l id disk := by
  rcases @alone_ends l id disk call with ⟨result, ended⟩
  change (call.alone l id disk).next l id disk = _
  rw [ended, next]

theorem alone_metadataRead {metadata : MangaMetadata} {userState : UserState}
    {bindings : MangaBindings} (readUserState : l.getUserState disk id = some userState)
    (readBindings : l.getBindings disk id = some bindings) :
    (metadataRead metadata).alone l id disk =
      .returned (some { id, metadata, userState, bindings }) := by
  simp [alone, next, readUserState, readBindings]

theorem alone_userStateRead {metadata : MangaMetadata} {userState : UserState}
    {bindings : MangaBindings} (readBindings : l.getBindings disk id = some bindings) :
    (userStateRead metadata userState).alone l id disk =
      .returned (some { id, metadata, userState, bindings }) := by
  simp [alone, next, readBindings]

/-- A step that does not fail reads what is stored. -/
theorem mixture_next (succeeds : call.next l id disk ≠ .returned none) :
    (call.next l id disk).mixture (l.stored disk id) = call.mixture (l.stored disk id) := by
  cases call with
  | started =>
      simp only [next] at succeeds ⊢
      split at succeeds
      · exact absurd rfl succeeds
      · split at succeeds
        · exact absurd rfl succeeds
        · rename_i present
          rw [if_neg present]
          rfl
  | found =>
      cases read : l.getMetadata disk id with
      | none => simp [next, read] at succeeds
      | some metadata => simp [next, read, mixture, Layout.stored]
  | metadataRead metadata =>
      cases read : l.getUserState disk id with
      | none => simp [next, read] at succeeds
      | some userState => simp [next, read, mixture, Layout.stored]
  | userStateRead metadata userState =>
      cases read : l.getBindings disk id with
      | none => simp [next, read] at succeeds
      | some bindings => simp [next, read, mixture, Layout.stored, Manga.contents]
  | returned result => rfl

theorem ne_failed (succeeds : call.next l id disk ≠ .returned none) : call ≠ .returned none := by
  rintro rfl
  exact succeeds rfl

theorem alone_contents {manga : Manga} (returns : call.alone l id disk = .returned (some manga)) :
    manga.contents = call.mixture (l.stored disk id) := by
  have last : call.alone l id disk ≠ .returned none := by simp [returns]
  have third := ne_failed last
  have second := ne_failed third
  have first := ne_failed second
  rw [← mixture_next first, ← mixture_next second, ← mixture_next third, ← mixture_next last]
  exact (congrArg (·.mixture (l.stored disk id)) returns).symm

theorem mixture_savedContents (info : Manga) (now : Time) :
    ∃ manga : Manga, call.mixture (l.savedContents info now) = manga.contents := by
  let saved : Manga :=
    { info with
      metadata := info.metadata.saved l.toLower
      userState := info.userState.saved now
      bindings := info.bindings.normalize }
  cases call with
  | started | found => exact ⟨saved, rfl⟩
  | metadataRead metadata => exact ⟨{ saved with metadata }, rfl⟩
  | userStateRead metadata userState => exact ⟨{ saved with metadata, userState }, rfl⟩
  | returned result =>
      cases result with
      | none => exact ⟨saved, rfl⟩
      | some manga => exact ⟨manga, rfl⟩

end GetMangaCall

/-! ## One save -/

/-- A save that succeeds leaves what it has written. -/
theorem stored_saveManga {info : Manga} {now : Time} {files files' : Files Document}
    {choices : List (FileChoice fun _ : Empty => Unit)}
    (ran : (Effects.saveManga l id info now : Alone Bool).run Files.respond files choices =
      some (true, files')) : l.stored files'.tree id = l.savedContents info now := by
  cases located : l.mangaDir id with
  | error _ =>
      have failed : (Effects.saveManga l id info now : Alone Bool) = .done false := by
        simp only [Effects.saveManga, Effects.saveMetadataLocked, Effects.saveLocked, located]
        rfl
      rw [failed] at ran
      rcases Program.run_done.mp ran with ⟨_, impossible, _⟩
      contradiction
  | ok dir =>
      rcases saveFiles_saves located (regular_mangaFiles info now) (by simp [Layout.mangaFiles]) ran
        rfl with ⟨⟨done, rest, split, ended⟩, _⟩
      have complete : rest = [] := by
        by_contra more
        have unsaved := (ended.broken more).1
        contradiction
      rw [complete, List.append_nil] at split
      subst split
      have reads : ∀ {α : Type} {name : String} {content : Document} (zero : α)
          (decode : Document → Option α), (name, content) ∈ l.mangaFiles info now →
          Layout.readConcern files'.tree (dir ++ [name]) zero decode = decode content := by
        intro α name content zero decode member
        have found := ended.new _ member
        simp [Layout.readConcern, Layout.notExist, FileTree.readFile, found]
      simp only [Layout.stored, Layout.getMetadata, Layout.getUserState, Layout.getBindings, located,
        Layout.savedContents, MangaContents.mk.injEq]
      exact ⟨(reads _ _ List.mem_cons_self).trans rfl,
        (reads _ _ (List.mem_cons_of_mem _ List.mem_cons_self)).trans rfl,
        (reads _ _ (List.mem_cons_of_mem _ (List.mem_cons_of_mem _ List.mem_cons_self))).trans rfl⟩

namespace MangaSystem

/-! ## The system -/

/-- The files hold contents that were written. -/
structure Sound (l : Layout) (id : String) (s : MangaSystem) : Prop where
  whole : s.Whole l id
  current : l.stored s.files.tree id ∈ s.written

theorem sound_initial (disk : Disk) : (initial l id disk).Sound l id where
  whole _ member := nomatch member
  current := List.mem_singleton_self _

/-- Contents that a call would return have been written. -/
theorem Sound.mixture_mem {s : MangaSystem} (sound : s.Sound l id) {call : GetMangaCall}
    (member : call ∈ s.calls) (succeeds : call ≠ .returned none) {manga : Manga}
    (readable : call.mixture (l.stored s.files.tree id) = manga.contents) :
    call.mixture (l.stored s.files.tree id) ∈ s.written := by
  have returned : ∀ manga, call.alone l id s.files.tree = .returned (some manga) →
      call.mixture (l.stored s.files.tree id) ∈ s.written := by
    intro manga returns
    rw [← GetMangaCall.alone_contents returns]
    exact sound.whole call member manga returns
  cases call with
  | started | found => exact sound.current
  | metadataRead metadata =>
      have readUserState := congrArg MangaContents.userState readable
      have readBindings := congrArg MangaContents.bindings readable
      exact returned _ (GetMangaCall.alone_metadataRead readUserState readBindings)
  | userStateRead metadata userState =>
      have readBindings := congrArg MangaContents.bindings readable
      exact returned _ (GetMangaCall.alone_userStateRead readBindings)
  | returned result =>
      cases result with
      | none => exact absurd rfl succeeds
      | some manga => exact returned manga rfl

/-- A step keeps the system sound when it spares the calls, and otherwise there is one that
returns a mixture when it goes on alone. -/
theorem step_exact {s s' : MangaSystem} {action : MangaAction} (sound : s.Sound l id)
    (taken : step l id s action = some s') :
    (s.SparesCalls l id action → s'.Sound l id) ∧ (s'.Whole l id → s.SparesCalls l id action) := by
  cases action with
  | getManga =>
      cases taken
      refine ⟨fun _ => ⟨?_, sound.current⟩, fun _ => trivial⟩
      intro call member manga returns
      rcases List.mem_append.mp member with member | member
      · exact sound.whole call member manga returns
      · obtain rfl := List.mem_singleton.mp member
        rw [GetMangaCall.alone_contents returns]
        exact sound.current
  | proceed position =>
      simp only [step] at taken
      split at taken
      · contradiction
      · rename_i before call after focused
        cases taken
        have calls := focus_eq focused
        refine ⟨fun _ => ⟨?_, sound.current⟩, fun _ => trivial⟩
        intro other member manga returns
        rcases List.mem_append.mp member with member | member
        · exact sound.whole other (by simp [calls, member]) manga returns
        · rcases List.mem_cons.mp member with rfl | member
          · rw [GetMangaCall.alone_next] at returns
            exact sound.whole call (by simp [calls]) manga returns
          · exact sound.whole other (by simp [calls, member]) manga returns
  | saveManga info now choices =>
      simp only [step] at taken
      split at taken
      · rename_i files ran
        cases taken
        have stored := stored_saveManga ran
        refine ⟨fun spares => ⟨?_, ?_⟩, fun whole call member => ?_⟩
        · intro call member manga returns
          rw [GetMangaCall.alone_contents returns, stored]
          rcases spares call member with same | left | other
          · rw [same]
            exact List.mem_cons_self
          · rw [left]
            have readable : call.mixture (l.stored s.files.tree id) = manga.contents := by
              rw [← left, ← stored]
              exact (GetMangaCall.alone_contents returns).symm
            have succeeds : call ≠ .returned none := by
              rintro rfl
              cases returns
            exact List.mem_cons_of_mem _ (sound.mixture_mem member succeeds readable)
          · exact List.mem_cons_of_mem _ other
        · rw [stored]
          exact List.mem_cons_self
        · by_cases fails : call = .returned none
          · exact .inl (by rw [fails, GetMangaCall.mixture])
          · have current : l.stored files.tree id ∈ l.savedContents info now :: s.written := by
              rw [stored]
              exact List.mem_cons_self
            have readable := @GetMangaCall.mixture_savedContents l call info now
            rcases readable with ⟨manga, readable⟩
            rw [← stored] at readable
            have mixed := Sound.mixture_mem ⟨whole, current⟩ member fails readable
            rw [stored] at mixed
            rcases List.mem_cons.mp mixed with same | other
            · exact .inl same
            · exact .inr (.inr other)
      · contradiction

/-- In a run from the start, each call of `GetManga` returns the contents that one save has
written exactly if every save spares the calls under way. -/
theorem getManga_whole_iff {disk : Disk} {actions : List MangaAction} {last : MangaSystem}
    (run : Run (step l id) (fun _ _ => True) (initial l id disk) actions last) :
    Run.Throughout (step l id) (Whole l id) (initial l id disk) actions ↔
      Run (step l id) (SparesCalls l id) (initial l id disk) actions last :=
  run.throughout_iff (Sound l id) (fun _ sound => sound.whole)
    (fun _ _ _ sound taken => step_exact sound taken) (sound_initial disk)

/-! Two calls of `GetManga`, the save after one and in the middle of the other. -/

def saveGranted : MangaAction :=
  .saveManga renamedManga Time.zero (List.replicate 12 (.grant ""))

theorem getManga_whole_iff_orderly :
    Run.Throughout (step shelf "m") (Whole shelf "m") (initial shelf "m" storedManga)
      [.getManga, .proceed 0, .proceed 0, .proceed 0, .proceed 0, saveGranted] := by
  have executed : (Run.execute (step shelf "m") (fun s action => s.SparesCalls shelf "m" action)
      (initial shelf "m" storedManga)
      [.getManga, .proceed 0, .proceed 0, .proceed 0, .proceed 0, saveGranted]).isSome = true := by
    decide +kernel
  rcases Option.isSome_iff_exists.mp executed with ⟨last, executed⟩
  have run := Run.ofExecute executed
  have spares := run.weaken fun s action permitted => of_decide_eq_true permitted
  exact (getManga_whole_iff (run.weaken fun _ _ _ => trivial)).mpr spares

/-- Whether a call has returned what no save has written. -/
def torn (s : MangaSystem) : GetMangaCall → Bool
  | .returned (some manga) => manga.contents ∉ s.written
  | _ => false

/-- The old title is returned with the new rating. -/
theorem getManga_torn :
    ∃ last manga, Run (step shelf "m") (fun _ _ => True) (initial shelf "m" storedManga)
        [.getManga, .proceed 0, .proceed 0, saveGranted, .proceed 0, .proceed 0] last ∧
      .returned (some manga) ∈ last.calls ∧ manga.contents ∉ last.written := by
  have executed : ((Run.execute (step shelf "m") (fun _ _ => true) (initial shelf "m" storedManga)
      [.getManga, .proceed 0, .proceed 0, saveGranted, .proceed 0, .proceed 0]).any fun last =>
        last.calls.any last.torn) = true := by
    decide +kernel
  rcases (Option.any_eq_true _ _).mp executed with ⟨last, executed, returns⟩
  rcases List.any_eq_true.mp returns with ⟨call, member, torn⟩
  unfold MangaSystem.torn at torn
  split at torn
  · rename_i manga
    exact ⟨last, manga, (Run.ofExecute executed).weaken fun _ _ _ => trivial, member,
      of_decide_eq_true torn⟩
  · contradiction

end MangaSystem

end Kiyomi.Library
