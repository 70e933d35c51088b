import Kiyomi.Api.ChapterHandlers
import Kiyomi.Api.PageProxy
import Kiyomi.Library.MergeEffects
import Kiyomi.Queue.PullFiles

namespace Kiyomi.Api

open Go Library Queue

/-! # The upstream address of a chapter

The pull of a chapter, the reader and the refresh each work out under which ids the content
provider knows a manga and its chapter. -/

/-- A request of `getChapterPages`, once it has its provider. -/
structure PagesRequest where
  mangaRef : String
  chapterRef : String
  providerID : String
  refresh : Bool

/-- Where `FetchPages` is sent: the provider, and the manga and the chapter there. -/
structure PagesAddress where
  providerID : String
  mangaRef : String
  chapterRef : String
  deriving DecidableEq

inductive PagesReply
  /-- The stored pages. -/
  | library (pages : List PageItem)
  | unavailable
  /-- `FetchPages` is asked. -/
  | fetch (address : PagesAddress)
  deriving DecidableEq

/-- The provider has an id for the manga. -/
def names (providerID : String) (p : ProviderRef) : Bool :=
  p.providerID == providerID && p.providerMangaID != ""

/-- The binding of the active content source names a manga. -/
def activeSource (bindings : MangaBindings) : Option ContentSource :=
  bindings.content.filter (·.providerMangaID != "")

/-- The manga's id at a provider as the reader finds it in the bindings. -/
def readerMangaID (bindings : MangaBindings) (providerID mangaRef : String) : String :=
  match bindings.content.filter fun content =>
    content.providerID == providerID && content.providerMangaID != "" with
  | some content => content.providerMangaID
  | none => ((bindings.providers.find? (names providerID)).map (·.providerMangaID)).getD mangaRef

namespace Handler

variable (l : Layout)

/-- The ids that `getChapterPages` asks the provider for. -/
def remoteAddress (disk : Disk) (mangaRef providerID chapterRef : String) : PagesAddress :=
  if mangaRef = "" then ⟨providerID, mangaRef, chapterRef⟩
  else
    match l.getManga disk mangaRef with
    | none => ⟨providerID, mangaRef, chapterRef⟩
    | some info =>
        let chMeta := l.getChapter disk mangaRef providerID chapterRef
        ⟨providerID, readerMangaID info.bindings providerID mangaRef,
          storedRef (chMeta.bind (·.content)) (·.chapterRef) chapterRef⟩

def getChapterPages (decode : Document → Option (List PageItem)) (isAvailable : String → Bool)
    (disk : Disk) (req : PagesRequest) : PagesReply :=
  let savedPages :=
    if req.refresh then []
    else (Api.getChapterPages l decode disk req.mangaRef req.providerID req.chapterRef).getD []
  if savedPages ≠ [] then .library (savedPages.map fun p => { p with source := "library" })
  else if !isAvailable req.providerID then .unavailable
  else .fetch (remoteAddress l disk req.mangaRef req.providerID req.chapterRef)

variable {l} in
theorem address_of_fetch {decode : Document → Option (List PageItem)} {isAvailable : String → Bool}
    {disk : Disk} {req : PagesRequest} {address : PagesAddress}
    (fetched : getChapterPages l decode isAvailable disk req = .fetch address) :
    remoteAddress l disk req.mangaRef req.providerID req.chapterRef = address := by
  rw [getChapterPages] at fetched
  generalize (if req.refresh then _ else _ : List PageItem) = savedPages at fetched
  split at fetched
  · contradiction
  · split at fetched
    · contradiction
    · exact PagesReply.fetch.inj fetched

/-- The provider that `refreshChapter` asks for chapters, and the manga there. -/
def refreshAddress (w : ChapterWorld) (mangaID chapterID : String) (disk : Disk) :
    Option (String × String) :=
  if mangaID = "" ∨ chapterID = "" then none
  else
    (findChapter l disk mangaID chapterID).bind fun (_, providerID) =>
      if w.hasContent providerID && w.isAvailable providerID then
        some (providerID,
          remoteMangaID ((l.getManga disk mangaID).map (·.bindings)) providerID mangaID)
      else none

end Handler

/-! ## What the pull asks for -/

variable {l : Layout} {encode : List PageItem → List UInt8} {disk : Disk} {p : PullChapterPayload}

/-- A run of the job in which nothing is refused comes to ask for pages. -/
def PullAsks (l : Layout) (encode : List PageItem → List UInt8) (disk : Disk)
    (p : PullChapterPayload) (address : PagesAddress) : Prop :=
  ∃ choices, ¬ Refused choices ∧
    (handlePullChapter l encode p).nextCall Files.respond (.ofTree disk) choices =
      some (.ask (.fetchPages address.providerID address.mangaRef address.chapterRef))

/-- The address that the stored documents give a pull. -/
def pullAddress (l : Layout) (disk : Disk) (p : PullChapterPayload) : PagesAddress where
  providerID := p.providerID
  mangaRef := storedRef ((l.getBindings disk p.mangaID).bind (·.content)) (·.providerMangaID) p.mangaID
  chapterRef := storedRef ((l.getChapter disk p.mangaID p.providerID p.chapterID).bind (·.content))
    (·.chapterRef) p.chapterID

/-- The source that the manifest names, unless something was refused. -/
theorem getChapter_content {f f' : Files Document} {mangaID providerID chapterID : String}
    {choices : List (FileChoice PullQuestion.Answer)} {chMeta : Option ChapterMeta}
    (ran : (Effects.getChapter l mangaID providerID chapterID).run Files.respond f choices =
      some (chMeta, f')) :
    f'.tree = f.tree ∧ (chMeta.bind (·.content) =
      (l.getChapter f.tree mangaID providerID chapterID).bind (·.content) ∨ Refused choices) := by
  have anywhere : ∀ dir, l.providerChapterDir mangaID providerID chapterID = .ok dir → True :=
    fun _ _ => trivial
  refine ⟨tree_of_reads (Reads.onlyReads (Effects.getChapter_reads anywhere)) ran, ?_⟩
  simp only [Effects.getChapter] at ran
  simp only [Layout.getChapter]
  cases located : l.providerChapterDir mangaID providerID chapterID with
  | error refused =>
      simp only [located] at ran
      rcases Program.run_done.mp ran with ⟨_, rfl, rfl⟩
      exact .inl rfl
  | ok dir =>
      simp only [located] at ran
      rcases Program.run_call.mp ran with ⟨choice, rest, reply, middle, rfl, responded, ran⟩
      cases choice with
      | answer question answer => contradiction
      | refuse made => exact .inr ⟨_, List.mem_cons_self, rfl⟩
      | grant suffix =>
          left
          simp only [Files.respond, Files.granted] at responded
          split at responded
          · rename_i content found
            cases responded
            simp only [FileTree.readFile, found]
            cases content with
            | chapter stored =>
                have counts : (Effects.countDownloadedPages l dir >>= fun pages =>
                    (.done (some (stored.read pages)) : PullEffect (Option ChapterMeta))).run
                      Files.respond _ rest = some (chMeta, f') := ran
                rcases Program.run_bind.mp counts with ⟨_, _, pages, _, _, _, returned⟩
                rcases Program.run_done.mp returned with ⟨_, rfl, rfl⟩
                rfl
            | metadata | userState | bindings | data =>
                rcases Program.run_done.mp ran with ⟨_, rfl, rfl⟩
                rfl
          · rename_i found
            cases responded
            rcases Program.run_done.mp ran with ⟨_, rfl, rfl⟩
            simp [FileTree.readFile, found]
          · rename_i absent
            cases responded
            rcases Program.run_done.mp ran with ⟨_, rfl, rfl⟩
            simp [FileTree.readFile, absent]

/-- The call does not ask for pages. -/
def Silent (c : FileCall Document PullQuestion) : Prop :=
  ∀ providerID mangaRef chapterRef, c ≠ .ask (.fetchPages providerID mangaRef chapterRef)

theorem pullPages_silent (pages : List (Int × String)) :
    (pullPages p pages).Calls Silent fun _ => True := by
  induction pages with
  | nil => exact trivial
  | cons page pages induction =>
      refine ⟨fun _ _ _ same => (nomatch same), fun answer => ?_⟩
      change (if !(answer == .enqueued) then .done false else pullPages p pages :
        PullEffect Bool).Calls Silent _
      split
      · exact trivial
      · exact induction

theorem silent_of_usesIn {dir : Path} {c : FileCall Document PullQuestion} (uses : c.UsesIn dir) :
    Silent c := fun _ _ _ => uses.ne_ask _

theorem saveChapterPages_silent (named : p.mangaID ≠ "") (pages : List PageItem) :
    (Effects.saveChapterPages l encode p.mangaID p.providerID p.chapterID pages :
      PullEffect Bool).Calls Silent fun _ => True := by
  have anywhere : ∀ dir, l.providerChapterDir p.mangaID p.providerID (l.sanitizeID p.chapterID) =
      .ok dir → True := fun _ _ => trivial
  refine (Effects.saveChapterPages_uses named anywhere).mono ?_ fun _ holds => holds
  rintro c ⟨dir, _, uses⟩
  exact silent_of_usesIn uses

theorem reads_silent {program : PullEffect α} {dirs : Path → Prop} {post : α → Prop}
    (reads : Reads dirs post program) : program.Calls Silent fun _ => True := by
  refine reads.mono ?_ fun _ _ => trivial
  rintro c ⟨_, dir, _, uses⟩
  exact silent_of_usesIn uses

theorem not_asks_of_silent {program : PullEffect α} {post : α → Prop}
    (silent : program.Calls Silent post) {f : Files Document}
    {choices : List (FileChoice PullQuestion.Answer)} {address : PagesAddress} :
    program.nextCall Files.respond f choices ≠
      some (.ask (.fetchPages address.providerID address.mangaRef address.chapterRef)) :=
  fun comes => silent.nextCall comes _ _ _ rfl

/-- The first of two parts asks for no pages, so the second does. -/
theorem asks_after_silent {program : PullEffect α} {post : α → Prop}
    (silent : program.Calls Silent post) {next : α → PullEffect β} {f : Files Document}
    {choices : List (FileChoice PullQuestion.Answer)} {address : PagesAddress} :
    (program >>= next).nextCall Files.respond f choices =
        some (.ask (.fetchPages address.providerID address.mangaRef address.chapterRef)) ↔
      ∃ before after value middle, choices = before ++ after ∧
        program.run Files.respond f before = some (value, middle) ∧
        (next value).nextCall Files.respond middle after =
          some (.ask (.fetchPages address.providerID address.mangaRef address.chapterRef)) := by
  rw [Program.nextCall_bind]
  exact ⟨fun either => either.resolve_left (not_asks_of_silent silent), .inr⟩

/-- A question that is asked first and never again. -/
theorem ask_nextCall_iff {providerID mangaRef chapterRef : String} {f : Files Document}
    {choices : List (FileChoice PullQuestion.Answer)} {address : PagesAddress}
    {rest : Option (List (Int × String)) → PullEffect Handled}
    (silent : ∀ pages, (rest pages).Calls Silent fun _ => True) :
    (askOutside (.fetchPages providerID mangaRef chapterRef) >>= rest).nextCall
        Files.respond f choices =
        some (.ask (.fetchPages address.providerID address.mangaRef address.chapterRef)) ↔
      choices = [] ∧ address = ⟨providerID, mangaRef, chapterRef⟩ := by
  cases choices with
  | nil =>
      change some (FileCall.ask _) = some (FileCall.ask _) ↔ _
      simp only [Option.some.injEq, FileCall.ask.injEq, PullQuestion.fetchPages.injEq, true_and]
      cases address
      simp [eq_comm]
  | cons choice choices =>
      refine iff_of_false (fun comes => ?_) fun both => (nomatch both.1)
      rcases Program.nextCall_cons.mp comes with ⟨pages, f', _, comes⟩
      exact not_asks_of_silent (silent pages) comes

/-- The part of a pull after the pages were fetched. -/
def afterPages (l : Layout) (encode : List PageItem → List UInt8) (p : PullChapterPayload) :
    Option (List (Int × String)) → PullEffect Handled
  | none => pure .failed
  | some pages => do
      let pageItems := pages.map fun (index, url) => ⟨index, url, "provider"⟩
      if !(← Effects.saveChapterPages l encode p.mangaID p.providerID p.chapterID pageItems) then
        pure .failed
      else if ← pullPages p pages then pure .completed
      else pure .failed

theorem handlePullChapter_eq (complete : p.complete = true) :
    handlePullChapter l encode p = (do
      if !(← askOutside (.hasContent p.providerID)) then pure .permanent
      else
        let chMeta ← Effects.getChapter l p.mangaID p.providerID p.chapterID
        let bindings ← Effects.getBindings l p.mangaID
        let fetched ← askOutside (.fetchPages p.providerID
          (storedRef (bindings.bind (·.content)) (·.providerMangaID) p.mangaID)
          (storedRef (chMeta.bind (·.content)) (·.chapterRef) p.chapterID))
        afterPages l encode p fetched) := by
  rw [handlePullChapter, complete]
  refine congrArg (askOutside _ >>= ·) (funext fun able => ?_)
  cases able with
  | false => rfl
  | true =>
      refine congrArg (_ >>= ·) (funext fun chMeta => ?_)
      refine congrArg (_ >>= ·) (funext fun bindings => ?_)
      refine congrArg (askOutside _ >>= ·) (funext fun fetched => ?_)
      cases fetched with
      | none => rfl
      | some pages => rfl

theorem afterPages_silent (named : p.mangaID ≠ "") (fetched : Option (List (Int × String))) :
    (afterPages l encode p fetched).Calls Silent fun _ => True := by
  cases fetched with
  | none => exact trivial
  | some pages =>
      refine (saveChapterPages_silent named _).bind fun saved _ => ?_
      split
      · exact trivial
      · refine (pullPages_silent pages).bind fun pulled _ => ?_
        split
        · exact trivial
        · exact trivial

/-- A pull asks for pages at the address of the stored documents. -/
theorem pullAsks_iff (complete : p.complete = true) {address : PagesAddress} :
    PullAsks l encode disk p address ↔ address = pullAddress l disk p := by
  have named : p.mangaID ≠ "" := by
    simp only [PullChapterPayload.complete, Bool.and_eq_true, bne_iff_ne, ne_eq] at complete
    exact complete.1.1
  have manifest : (Effects.getChapter l p.mangaID p.providerID p.chapterID :
      PullEffect (Option ChapterMeta)).Calls Silent fun _ => True :=
    reads_silent (@Effects.getChapter_reads _ _ (fun _ => True) _ _ _ _ fun _ _ => trivial)
  have bound : (Effects.getBindings l p.mangaID :
      PullEffect (Option MangaBindings)).Calls Silent fun _ => True :=
    reads_silent (@Effects.getBindings_reads _ _ (fun _ => True) _ _ fun _ _ => trivial)
  have available : (askOutside (.hasContent p.providerID)).Calls Silent fun _ => True :=
    ⟨fun _ _ _ same => (nomatch same), fun _ => trivial⟩
  constructor
  · rintro ⟨choices, clear, comes⟩
    rw [handlePullChapter_eq complete] at comes
    rcases (asks_after_silent available).mp comes with ⟨before, after, able, f, rfl, asked, comes⟩
    rcases run_ask.mp asked with ⟨answer, _, rfl, returned⟩
    rcases Program.run_done.mp returned with ⟨rfl, rfl, rfl⟩
    cases answer with
    | false => cases comes
    | true =>
        rcases (asks_after_silent manifest).mp comes with ⟨before, after, chMeta, f, rfl, read, comes⟩
        rcases (asks_after_silent bound).mp comes with
          ⟨before', after, bindings, f', rfl, read', comes⟩
        have here : after = [] ∧ address = ⟨p.providerID,
            storedRef (bindings.bind (·.content)) (·.providerMangaID) p.mangaID,
            storedRef (chMeta.bind (·.content)) (·.chapterRef) p.chapterID⟩ :=
          (ask_nextCall_iff (afterPages_silent named)).mp comes
        rcases here with ⟨rfl, rfl⟩
        rcases getChapter_content read with ⟨sameTree, isStored | refused⟩
        · rcases Effects.getBindings_readsAs l p.mangaID read' with ⟨_, isBound | ⟨_, refused⟩⟩
          · rw [isStored, isBound, sameTree]
            rfl
          · exact absurd ((refused.append_left []).append_right before |>.append_right _) clear
        · exact absurd ((refused.append_left (before' ++ [])).append_right _) clear
  · rintro rfl
    rcases exists_unrefusedRun (Effects.getChapter l p.mangaID p.providerID p.chapterID :
      PullEffect (Option ChapterMeta)) (.ofTree disk) with ⟨before, chMeta, f, read, clear⟩
    rcases exists_unrefusedRun (Effects.getBindings l p.mangaID :
      PullEffect (Option MangaBindings)) f with ⟨before', bindings, f', read', clear'⟩
    refine ⟨.answer (.hasContent p.providerID) true :: (before ++ before'), ?_, ?_⟩
    · rintro ⟨choice, member, isRefusal⟩
      rcases List.mem_cons.mp member with rfl | later
      · contradiction
      · rcases List.mem_append.mp later with first | second
        · exact clear ⟨choice, first, isRefusal⟩
        · exact clear' ⟨choice, second, isRefusal⟩
    · have isStored := (getChapter_content read).2.resolve_right clear
      have sameTree := (getChapter_content read).1
      have isBound := (Effects.getBindings_readsAs l p.mangaID read').2.resolve_right
        fun both => clear' both.2
      rw [handlePullChapter_eq complete]
      refine (asks_after_silent available).mpr ⟨[_], _, true, .ofTree disk, rfl, ?_, ?_⟩
      · exact run_ask.mpr ⟨true, [], rfl, rfl⟩
      refine (asks_after_silent manifest).mpr ⟨before, before', chMeta, f, rfl, read, ?_⟩
      refine (asks_after_silent bound).mpr ⟨before', [], bindings, f',
        (List.append_nil before').symm, read', ?_⟩
      apply (ask_nextCall_iff (afterPages_silent named)).mpr
      rw [isStored, isBound, sameTree]
      exact ⟨rfl, rfl⟩

/-! ## One address -/

/-- The pull and the reader ask the provider for the same, and the refresh asks it for the same
manga. -/
structure OneAddress (l : Layout) (encode : List PageItem → List UInt8)
    (decode : Document → Option (List PageItem)) (disk : Disk) (p : PullChapterPayload) : Prop where
  pages : ∀ pulled isAvailable refresh read, PullAsks l encode disk p pulled →
    Handler.getChapterPages l decode isAvailable disk
      ⟨p.mangaID, p.chapterID, p.providerID, refresh⟩ = .fetch read → pulled = read
  manga : ∀ pulled w remote, PullAsks l encode disk p pulled →
    Handler.refreshAddress l w p.mangaID p.chapterID disk = some (p.providerID, remote) →
    remote = pulled.mangaRef

/-- The active content source is the provider's own, or it names the manga that the first entry
of the provider names, where the local id stands for a missing one. -/
def SameManga (bindings : MangaBindings) (providerID mangaID : String) : Prop :=
  (∃ content, bindings.content = some content ∧ content.providerID = providerID ∧
    content.providerMangaID ≠ "") ∨
  ((bindings.providers.find? (names providerID)).map (·.providerMangaID)).getD mangaID =
    ((activeSource bindings).map (·.providerMangaID)).getD mangaID

theorem storedRef_eq (bindings : MangaBindings) (mangaID : String) :
    storedRef bindings.content (·.providerMangaID) mangaID =
      ((activeSource bindings).map (·.providerMangaID)).getD mangaID := by
  cases content : bindings.content with
  | none => simp only [storedRef, activeSource, content, Option.filter_none, Option.map_none,
      Option.getD_none]
  | some content' =>
      by_cases unnamed : content'.providerMangaID = ""
      · simp [storedRef, activeSource, content, unnamed, Option.filter_some]
      · simp [storedRef, activeSource, content, unnamed, Option.filter_some]

/-- The manga's id at the provider, by where it is found. -/
theorem readerMangaID_cases (bindings : MangaBindings) (providerID mangaID : String) :
    (∃ content, bindings.content = some content ∧ content.providerID = providerID ∧
      content.providerMangaID ≠ "" ∧
      readerMangaID bindings providerID mangaID = content.providerMangaID) ∨
    ((¬ ∃ content, bindings.content = some content ∧ content.providerID = providerID ∧
        content.providerMangaID ≠ "") ∧
      (bindings.content.filter fun content =>
        content.providerID == providerID && content.providerMangaID != "") = none ∧
      readerMangaID bindings providerID mangaID =
        ((bindings.providers.find? (names providerID)).map (·.providerMangaID)).getD mangaID) := by
  rw [readerMangaID]
  split
  · rename_i content own
    rw [Option.filter_eq_some_iff] at own
    have named : content.providerID = providerID ∧ content.providerMangaID ≠ "" := by
      simpa using own.2
    exact .inl ⟨content, own.1, named.1, named.2, rfl⟩
  · rename_i other
    refine .inr ⟨?_, other, rfl⟩
    rintro ⟨content, bound, own, named⟩
    rw [bound, Option.filter_some, if_pos (by simp [own, named])] at other
    contradiction

/-- Which manga the reader finds, beside the one that the pull finds. -/
theorem readerMangaID_eq_iff (bindings : MangaBindings) (providerID mangaID : String) :
    storedRef bindings.content (·.providerMangaID) mangaID =
      readerMangaID bindings providerID mangaID ↔ SameManga bindings providerID mangaID := by
  rcases readerMangaID_cases bindings providerID mangaID with
    ⟨content, bound, own, named, found⟩ | ⟨notOwn, _, found⟩
  · refine iff_of_true ?_ (.inl ⟨content, bound, own, named⟩)
    rw [found]
    simp only [storedRef, bound]
    exact if_pos named
  · rw [found, storedRef_eq, eq_comm, SameManga, or_iff_right notOwn]

theorem remoteMangaID_eq {bindings : MangaBindings} {providerID mangaID : String}
    (same : SameManga bindings providerID mangaID) :
    remoteMangaID (some bindings) providerID mangaID =
      storedRef bindings.content (·.providerMangaID) mangaID := by
  rw [(readerMangaID_eq_iff bindings providerID mangaID).mpr same]
  rcases readerMangaID_cases bindings providerID mangaID with
    ⟨content, bound, own, named, found⟩ | ⟨notOwn, other, found⟩
  · rw [found]
    simp only [remoteMangaID, bound, Option.filter_some, own, bne_iff_ne.mpr named, beq_self_eq_true,
      Bool.and_self, if_true]
  · have alike := same.resolve_left notOwn
    rw [found]
    simp only [remoteMangaID, other]
    split
    · rename_i unbound
      rw [unbound, alike]
      cases content : bindings.content with
      | none => simp [activeSource, content]
      | some content' =>
          by_cases unnamed : content'.providerMangaID = ""
          · simp [activeSource, content, unnamed, Option.filter_some]
          · simp [activeSource, content, unnamed, Option.filter_some]
    · rfl

theorem getBindings_of_getManga {mangaID : String} {manga : Manga}
    (stored : l.getManga disk mangaID = some manga) :
    l.getBindings disk mangaID = some manga.bindings := by
  simp only [Layout.getManga] at stored
  split at stored
  · contradiction
  · split at stored
    · contradiction
    · simp only [Option.bind_eq_bind, Option.bind_eq_some_iff, Option.some.injEq] at stored
      rcases stored with ⟨metadata, _, userState, _, bindings, read, rfl⟩
      exact read

/-- For a stored manga, the three have one address exactly if the bindings name one manga. -/
theorem oneAddress_iff {decode : Document → Option (List PageItem)} {manga : Manga}
    (stored : l.getManga disk p.mangaID = some manga) (complete : p.complete = true) :
    OneAddress l encode decode disk p ↔ SameManga manga.bindings p.providerID p.mangaID := by
  have bound := getBindings_of_getManga stored
  have named : p.mangaID ≠ "" := by
    simp only [PullChapterPayload.complete, Bool.and_eq_true, bne_iff_ne, ne_eq] at complete
    exact complete.1.1
  have reads : Handler.remoteAddress l disk p.mangaID p.providerID p.chapterID =
      { pullAddress l disk p with
        mangaRef := readerMangaID manga.bindings p.providerID p.mangaID } := by
    simp only [Handler.remoteAddress, if_neg named, stored, pullAddress]
  have pulls : (pullAddress l disk p).mangaRef =
      storedRef manga.bindings.content (·.providerMangaID) p.mangaID := by
    simp only [pullAddress, bound, Option.bind_some]
  constructor
  · intro one
    have asked : PullAsks l encode disk p (pullAddress l disk p) := (pullAsks_iff complete).mpr rfl
    have fetched : Handler.getChapterPages l decode (fun _ => true) disk
        ⟨p.mangaID, p.chapterID, p.providerID, true⟩ =
          .fetch (Handler.remoteAddress l disk p.mangaID p.providerID p.chapterID) := rfl
    have same := one.pages _ _ _ _ asked fetched
    rw [← readerMangaID_eq_iff, ← pulls]
    exact congrArg PagesAddress.mangaRef (same.trans reads)
  · intro same
    refine ⟨fun pulled isAvailable refresh read asked fetched => ?_,
      fun pulled w remote asked refreshed => ?_⟩
    · rw [(pullAsks_iff complete).mp asked]
      rw [← Handler.address_of_fetch fetched, reads, ← (readerMangaID_eq_iff _ _ _).mpr same,
        ← pulls]
    · rw [(pullAsks_iff complete).mp asked, pulls, ← remoteMangaID_eq same]
      simp only [Handler.refreshAddress] at refreshed
      split at refreshed
      · contradiction
      · rcases Option.bind_eq_some_iff.mp refreshed with ⟨⟨chMeta, providerID⟩, _, refreshed⟩
        split at refreshed
        · rw [Option.some.injEq, Prod.mk.injEq] at refreshed
          rw [← refreshed.2, refreshed.1, stored]
          rfl
        · contradiction

section TwoSources

/-- A manga that is bound to two providers under different ids; the first one is the active
source. -/
def twoSources : MangaBindings where
  providers := [⟨"mangadex", "md-1", "Frieren"⟩, ⟨"mangafox", "mf-9", "Frieren"⟩]
  content := some { ContentSource.zero with providerID := "mangadex", providerMangaID := "md-1" }

def twoSourcesDisk : Disk := FileTree.ofEntries
  [(["library", "m", "metadata.json"], .file (.metadata MangaMetadata.zero)),
    (["library", "m", "bindings.json"], .file (.bindings twoSources)),
    (["library", "m"], .directory), (["library"], .directory)] (by decide +kernel)

def twoSourcesManga : Manga := ⟨"m", MangaMetadata.zero, UserState.zero, twoSources⟩

theorem getManga_twoSources :
    libraryLayout.getManga twoSourcesDisk "m" = some twoSourcesManga := by
  have evaluated : (libraryLayout.getManga twoSourcesDisk "m").map
      (fun manga => (manga.id, manga.metadata, manga.userState, manga.bindings)) =
      some ("m", MangaMetadata.zero, UserState.zero, twoSources) := by decide +kernel
  rcases Option.map_eq_some_iff.mp evaluated with ⟨manga, found, same⟩
  cases manga
  cases same
  exact found

/-- Chapters of the active source. -/
theorem oneAddress_iff_active_source :
    OneAddress libraryLayout (fun _ => []) (fun _ => none) twoSourcesDisk ⟨"m", "mangadex", "c1"⟩ ↔
      SameManga twoSources "mangadex" "m" :=
  @oneAddress_iff libraryLayout _ _ ⟨"m", "mangadex", "c1"⟩ _ _ getManga_twoSources
    (by decide)

/-- The pull asks mangafox for the manga's id at mangadex. -/
theorem pull_asks_under_active_id :
    ¬ ∀ l encode decode disk p manga, l.getManga disk p.mangaID = some manga →
      OneAddress l encode decode disk p := by
  intro claimed
  have one := claimed libraryLayout (fun _ => []) (fun _ => none) twoSourcesDisk
    ⟨"m", "mangafox", "c1"⟩ twoSourcesManga getManga_twoSources
  have same := (@oneAddress_iff libraryLayout _ _ ⟨"m", "mangafox", "c1"⟩ _ _ getManga_twoSources
    (by decide)).mp one
  simp [SameManga, twoSourcesManga, twoSources, names, activeSource, Option.filter_some] at same

end TwoSources

end Kiyomi.Api
