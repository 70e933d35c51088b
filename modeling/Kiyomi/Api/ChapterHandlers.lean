import Kiyomi.Library.ChapterFiles
import Kiyomi.Queue.PullManga

namespace Kiyomi.Api

open Go Library Queue

/-! # The chapter handlers

The handlers of requests about chapters of one manga that may change something. -/

/-- What a handler finds outside the library. -/
structure ChapterWorld where
  now : Time
  /-- `requireContentCapability`. -/
  hasContent : String → Bool
  /-- `getProvider`. -/
  isAvailable : String → Bool
  /-- `FetchChapters` of a provider for its own manga id. -/
  fetchChapters : String → String → Option (List Chapter)
  /-- There is a job store and an enqueuer. -/
  hasQueue : Bool
  /-- `CreateJob` and `Enqueue` both take a job. -/
  takesJob : PullChapterPayload → Bool

inductive ChapterReply
  | ok
  | accepted
  | noContent
  | badRequest
  | notFound
  /-- An internal error, or the status of an error of the provider. -/
  | failed
  | unavailable
  deriving DecidableEq, Repr

structure ChapterOutcome where
  reply : ChapterReply
  disk : Disk
  /-- The `pull_chapter` jobs that were enqueued. -/
  jobs : List PullChapterPayload

namespace ChapterOutcome

/-- A request that is answered before anything changes. -/
def refuse (reply : ChapterReply) (disk : Disk) : ChapterOutcome := ⟨reply, disk, []⟩

/-- The answer to an operation of the library. -/
def ofResult (reply : ChapterReply) (result : Disk × Bool) : ChapterOutcome :=
  ⟨if result.2 then reply else .failed, result.1, []⟩

end ChapterOutcome

open ChapterOutcome

variable (l : Layout)

/-- The handlers' `findChapter`: the provider that the manifest names goes first. -/
def findChapter (disk : Disk) (mangaID chapterID : String) : Option (ChapterMeta × String) :=
  (l.findChapter disk mangaID chapterID).map fun (chMeta, foundProviderID) =>
    match chMeta.content with
    | some content =>
        (chMeta, if content.providerID ≠ "" then content.providerID else foundProviderID)
    | none => (chMeta, foundProviderID)

/-- The first that is not empty. -/
def firstNonEmpty (values : List String) : String := (values.find? (· ≠ "")).getD ""

/-! ## Single chapters -/

/-- What a save request names besides the chapter id of its path. -/
structure SaveChapterRequest where
  id : String
  chapterID : String
  providerID : String
  chMeta : ChapterMeta
  /-- The query parameter `provider_id`, or else `providerId`. -/
  queryProviderID : String

/-- The chapter id that a save is about. -/
def SaveChapterRequest.savedID (body : SaveChapterRequest) (chapterID : String) : String :=
  firstNonEmpty [chapterID, body.id, body.chapterID, (body.chMeta.content.map (·.chapterRef)).getD ""]

/-- The manifest of the request with its gaps filled. -/
def SaveChapterRequest.filled (body : SaveChapterRequest) (providerID chapterID : String) :
    ChapterMeta :=
  { body.chMeta with
    content := some (match body.chMeta.content with
      | none => { ContentSource.zero with providerID, chapterRef := chapterID }
      | some content =>
          { content with
            providerID := if content.providerID = "" then providerID else content.providerID
            chapterRef := if content.chapterRef = "" then chapterID else content.chapterRef }) }

/-- The provider whose directory a save goes to. -/
def saveProvider (disk : Disk) (mangaID chapterID : String) (body : SaveChapterRequest) : String :=
  firstNonEmpty
    [((findChapter l disk mangaID chapterID).map (·.2)).getD "",
      (body.chMeta.content.map (·.providerID)).getD "", body.providerID, body.queryProviderID,
      (((l.getManga disk mangaID).bind (·.bindings.content)).map (·.providerID)).getD "", "local"]

def saveChapter (mangaID chapterID : String) (body : SaveChapterRequest) (disk : Disk) :
    ChapterOutcome :=
  let chapterID := body.savedID chapterID
  if chapterID = "" then refuse .badRequest disk
  else
    let providerID := saveProvider l disk mangaID chapterID body
    ofResult .ok (orKeep (fun disk =>
      l.saveChapter disk mangaID providerID chapterID (body.filled providerID chapterID)) disk)

def deleteChapter (mangaID chapterID : String) (disk : Disk) : ChapterOutcome :=
  match findChapter l disk mangaID chapterID with
  | none => refuse .notFound disk
  | some (_, providerID) => ofResult .noContent (l.deleteChapter mangaID providerID chapterID disk)

def deleteChapterFiles (mangaID chapterID : String) (disk : Disk) : ChapterOutcome :=
  match findChapter l disk mangaID chapterID with
  | none => refuse .notFound disk
  | some (_, providerID) =>
      ofResult .noContent (l.deleteChapterFiles mangaID providerID chapterID disk)

def patchChapterProgress (w : ChapterWorld) (mangaID chapterID : String) (req : ProgressPatch)
    (disk : Disk) : ChapterOutcome :=
  match findChapter l disk mangaID chapterID with
  | none => refuse .notFound disk
  | some (existing, providerID) =>
      ofResult .ok (l.updateChapterProgress disk mangaID providerID chapterID
        (req.isRead.getD existing.isRead) (req.lastReadPage.getD existing.lastReadPage) w.now)

/-- The manga's id at a provider, as both refreshes find it in the bindings. -/
def remoteMangaID (bindings : Option MangaBindings) (providerID mangaID : String) : String :=
  match bindings with
  | none => mangaID
  | some bindings =>
      let own := bindings.content.filter fun content =>
        content.providerID == providerID && content.providerMangaID != ""
      match own with
      | some content => content.providerMangaID
      | none =>
          let listed := bindings.providers.find? fun p =>
            p.providerID == providerID && p.providerMangaID != ""
          let remote := (listed.map (·.providerMangaID)).getD mangaID
          if remote = mangaID then
            ((bindings.content.map (·.providerMangaID)).filter (· ≠ "")).getD remote
          else remote

def refreshChapter (w : ChapterWorld) (mangaID chapterID : String) (disk : Disk) :
    ChapterOutcome :=
  if mangaID = "" ∨ chapterID = "" then refuse .badRequest disk
  else
    match findChapter l disk mangaID chapterID with
    | none => refuse .notFound disk
    | some (chMeta, providerID) =>
        if !w.hasContent providerID then refuse .badRequest disk
        else if !w.isAvailable providerID then refuse .failed disk
        else
          let bindings := (l.getManga disk mangaID).map (·.bindings)
          match w.fetchChapters providerID (remoteMangaID bindings providerID mangaID) with
          | none => refuse .failed disk
          | some chapters =>
              let chapterRef := chMeta.content.map (·.chapterRef)
              match chapters.find? fun ch => ch.id == chapterID || some ch.id == chapterRef with
              | none => refuse .notFound disk
              | some upCh =>
                  ofResult .ok (orKeep (fun disk =>
                    l.saveChapter disk mangaID providerID chapterID
                      (chMeta.refreshed upCh providerID upCh.id w.now)) disk)

def pullChapter (w : ChapterWorld) (mangaID chapterID : String) (disk : Disk) : ChapterOutcome :=
  if mangaID = "" ∨ chapterID = "" then refuse .badRequest disk
  else if (l.getManga disk mangaID).isNone then refuse .notFound disk
  else
    match findChapter l disk mangaID chapterID with
    | none => refuse .notFound disk
    | some (_, providerID) =>
        if !w.hasContent providerID then refuse .badRequest disk
        else if !w.hasQueue then refuse .unavailable disk
        else if w.takesJob ⟨mangaID, providerID, chapterID⟩ then
          ⟨.accepted, disk, [⟨mangaID, providerID, chapterID⟩]⟩
        else refuse .failed disk

/-! ## Batches -/

/-- Add a chapter to the group of its provider. -/
def addTo (providerID chapterID : String) :
    List (String × List String) → List (String × List String)
  | [] => [(providerID, [chapterID])]
  | (other, chapterIDs) :: groups =>
      if other = providerID then (other, chapterIDs ++ [chapterID]) :: groups
      else (other, chapterIDs) :: addTo providerID chapterID groups

/-- `byProvider`: the chapters, given with their providers, by provider. -/
def byProvider (entries : List (String × String)) : List (String × List String) :=
  entries.foldl (fun groups (chapterID, providerID) => addTo providerID chapterID groups) []

/-- Each chapter with its provider, when all are found. -/
def findAll (disk : Disk) (mangaID : String) (chapterIDs : List String) :
    Option (List (String × String)) :=
  chapterIDs.mapM fun chapterID =>
    (findChapter l disk mangaID chapterID).map fun found => (chapterID, found.2)

def patchChaptersProgressBatch (w : ChapterWorld) (mangaID : String) (chapterIDs : List String)
    (req : ProgressPatch) (disk : Disk) : ChapterOutcome :=
  if mangaID = "" ∨ chapterIDs = [] then refuse .badRequest disk
  else
    match findAll l disk mangaID chapterIDs with
    | none => refuse .notFound disk
    | some entries =>
        ofResult .ok (each (fun (providerID, chapterIDs) =>
          l.batchUpdateChapterProgress mangaID providerID chapterIDs (req.isRead.getD false)
            (req.lastReadPage.getD 0) w.now) (byProvider entries) disk)

def deleteChapterFilesBatch (mangaID : String) (chapterIDs : List String) (disk : Disk) :
    ChapterOutcome :=
  if mangaID = "" ∨ chapterIDs = [] then refuse .badRequest disk
  else
    match findAll l disk mangaID chapterIDs with
    | none => refuse .notFound disk
    | some entries =>
        ofResult .ok (each (fun (providerID, chapterIDs) =>
          l.batchDeleteChapterFiles mangaID providerID chapterIDs) (byProvider entries) disk)

/-- Chapters that are not found are left out. -/
def deleteChaptersBatch (mangaID : String) (chapterIDs : List String) (disk : Disk) :
    ChapterOutcome :=
  if mangaID = "" ∨ chapterIDs = [] then refuse .badRequest disk
  else
    let entries := chapterIDs.filterMap fun chapterID =>
      ((findChapter l disk mangaID chapterID).filter (·.2 ≠ "")).map fun found =>
        (chapterID, found.2)
    ofResult .ok (each (fun (providerID, chapterIDs) =>
      l.batchDeleteChapters mangaID providerID chapterIDs) (byProvider entries) disk)

/-- One chapter of `refreshChaptersBatch`; one that the upstream does not have is left out. -/
def refreshListed (w : ChapterWorld) (mangaID providerID : String) (chapters : List Chapter)
    (chapterID : String) (disk : Disk) : Disk × Bool :=
  let upstream := fun id => chapters.reverse.find? fun ch => ch.id == id
  let stored := l.getChapter disk mangaID providerID chapterID
  let chapterRef := ((stored.bind (·.content)).map (·.chapterRef)).filter (· ≠ "")
  match upstream chapterID <|> chapterRef.bind upstream with
  | none => (disk, true)
  | some upCh =>
      let chMeta := stored.getD
        { ChapterMeta.zero with
          content := some { ContentSource.zero with providerID, chapterRef := chapterID } }
      orKeep (fun disk =>
        l.saveChapter disk mangaID providerID chapterID
          (chMeta.refreshed upCh providerID chapterID w.now)) disk

/-- The chapters of one provider in `refreshChaptersBatch`. -/
def refreshProvider (w : ChapterWorld) (mangaID : String) (bindings : Option MangaBindings) :
    String × List String → Disk → Disk × Bool
  | (providerID, chapterIDs), disk =>
      if !w.isAvailable providerID then (disk, false)
      else
        match w.fetchChapters providerID (remoteMangaID bindings providerID mangaID) with
        | none => (disk, false)
        | some chapters => each (refreshListed l w mangaID providerID chapters) chapterIDs disk

def refreshChaptersBatch (w : ChapterWorld) (mangaID : String) (chapterIDs : List String)
    (disk : Disk) : ChapterOutcome :=
  if mangaID = "" ∨ chapterIDs = [] then refuse .badRequest disk
  else
    let bindings := (l.getManga disk mangaID).map (·.bindings)
    let defaultProviderID := ((bindings.bind (·.content)).map (·.providerID)).getD ""
    let targets := chapterIDs.map fun chapterID =>
      (chapterID, firstNonEmpty
        [((findChapter l disk mangaID chapterID).map (·.2)).getD "", defaultProviderID, "local"])
    if targets.all fun target => w.hasContent target.2 then
      ofResult .ok (each (refreshProvider l w mangaID bindings) (byProvider targets) disk)
    else refuse .badRequest disk

/-- The jobs of a batch, or the answer to the first chapter that cannot have one. -/
def pullPayloads (w : ChapterWorld) (disk : Disk) (mangaID : String) (chapterIDs : List String) :
    Except ChapterReply (List PullChapterPayload) :=
  chapterIDs.mapM fun chapterID =>
    match findChapter l disk mangaID chapterID with
    | none => .error .notFound
    | some (_, providerID) =>
        if w.hasContent providerID then .ok ⟨mangaID, providerID, chapterID⟩
        else .error .badRequest

def pullChaptersBatch (w : ChapterWorld) (mangaID : String) (chapterIDs : List String)
    (disk : Disk) : ChapterOutcome :=
  if mangaID = "" ∨ chapterIDs = [] then refuse .badRequest disk
  else if (l.getManga disk mangaID).isNone then refuse .notFound disk
  else if !w.hasQueue then refuse .unavailable disk
  else
    match pullPayloads l w disk mangaID chapterIDs with
    | .error reply => refuse reply disk
    | .ok payloads =>
        ⟨if payloads.all w.takesJob then .ok else .failed, disk, payloads.takeWhile w.takesJob⟩

/-! ## Requests -/

inductive ChapterCall
  | progress (chapterID : String) (req : ProgressPatch)
  | batchProgress (chapterIDs : List String) (req : ProgressPatch)
  | save (chapterID : String) (body : SaveChapterRequest)
  | refresh (chapterID : String)
  | batchRefresh (chapterIDs : List String)
  | pull (chapterID : String)
  | batchPull (chapterIDs : List String)
  | delete (chapterID : String)
  | batchDelete (chapterIDs : List String)
  | deleteFiles (chapterID : String)
  | batchDeleteFiles (chapterIDs : List String)

namespace ChapterCall

/-- The chapters that a request is about. -/
def chapterIDs : ChapterCall → List String
  | progress chapterID _ | refresh chapterID | pull chapterID | delete chapterID
  | deleteFiles chapterID => [chapterID]
  | save chapterID body => [body.savedID chapterID]
  | batchProgress chapterIDs _ | batchRefresh chapterIDs | batchPull chapterIDs
  | batchDelete chapterIDs | batchDeleteFiles chapterIDs => chapterIDs

def run (w : ChapterWorld) (mangaID : String) : ChapterCall → Disk → ChapterOutcome
  | progress chapterID req => patchChapterProgress l w mangaID chapterID req
  | batchProgress chapterIDs req => patchChaptersProgressBatch l w mangaID chapterIDs req
  | save chapterID body => saveChapter l mangaID chapterID body
  | refresh chapterID => refreshChapter l w mangaID chapterID
  | batchRefresh chapterIDs => refreshChaptersBatch l w mangaID chapterIDs
  | pull chapterID => pullChapter l w mangaID chapterID
  | batchPull chapterIDs => pullChaptersBatch l w mangaID chapterIDs
  | delete chapterID => deleteChapter l mangaID chapterID
  | batchDelete chapterIDs => deleteChaptersBatch l mangaID chapterIDs
  | deleteFiles chapterID => deleteChapterFiles l mangaID chapterID
  | batchDeleteFiles chapterIDs => deleteChapterFilesBatch l mangaID chapterIDs

end ChapterCall

/-! ## Groups -/

theorem mem_addTo {providerID chapterID : String} {groups : List (String × List String)}
    {group : String × List String} (member : group ∈ addTo providerID chapterID groups)
    {id : String} (inGroup : id ∈ group.2) :
    (group.1 = providerID ∧ id = chapterID) ∨ ∃ old ∈ groups, old.1 = group.1 ∧ id ∈ old.2 := by
  induction groups with
  | nil =>
      rw [addTo, List.mem_singleton] at member
      subst member
      exact .inl ⟨rfl, List.mem_singleton.mp inGroup⟩
  | cons first groups induction =>
      rcases first with ⟨other, chapterIDs⟩
      rw [addTo] at member
      split at member
      · rename_i same
        rcases List.mem_cons.mp member with rfl | later
        · rcases List.mem_append.mp inGroup with old | new
          · exact .inr ⟨_, List.mem_cons_self, rfl, old⟩
          · exact .inl ⟨same, List.mem_singleton.mp new⟩
        · exact .inr ⟨group, List.mem_cons_of_mem _ later, rfl, inGroup⟩
      · rcases List.mem_cons.mp member with rfl | later
        · exact .inr ⟨_, List.mem_cons_self, rfl, inGroup⟩
        · rcases induction later with new | ⟨old, inGroups, found⟩
          · exact .inl new
          · exact .inr ⟨old, List.mem_cons_of_mem _ inGroups, found⟩

theorem mem_foldl_addTo {entries : List (String × String)} {groups : List (String × List String)}
    {group : String × List String}
    (member : group ∈ entries.foldl
      (fun groups (chapterID, providerID) => addTo providerID chapterID groups) groups)
    {id : String} (inGroup : id ∈ group.2) :
    (id, group.1) ∈ entries ∨ ∃ old ∈ groups, old.1 = group.1 ∧ id ∈ old.2 := by
  induction entries generalizing groups with
  | nil => exact .inr ⟨group, member, rfl, inGroup⟩
  | cons entry entries induction =>
      rcases induction member with later | ⟨old, inOld, same, found⟩
      · exact .inl (List.mem_cons_of_mem _ later)
      · rcases mem_addTo inOld found with ⟨provider, chapter⟩ | ⟨older, inGroups, own, found⟩
        · refine .inl (List.mem_cons.mpr (.inl ?_))
          rw [← same, provider, chapter]
        · exact .inr ⟨older, inGroups, own.trans same, found⟩

/-- A chapter of a group was given with the provider of the group. -/
theorem mem_byProvider {entries : List (String × String)} {group : String × List String}
    (member : group ∈ byProvider entries) {id : String} (inGroup : id ∈ group.2) :
    (id, group.1) ∈ entries := by
  rcases mem_foldl_addTo member inGroup with found | ⟨old, none, _⟩
  · exact found
  · contradiction

theorem addTo_filled {providerID chapterID : String} {groups : List (String × List String)}
    (filled : ∀ group ∈ groups, group.2 ≠ []) :
    ∀ group ∈ addTo providerID chapterID groups, group.2 ≠ [] := by
  induction groups with
  | nil => simp [addTo]
  | cons first groups induction =>
      have rest := induction fun group member => filled group (List.mem_cons_of_mem _ member)
      intro group member
      rw [addTo] at member
      split at member
      · rcases List.mem_cons.mp member with rfl | later
        · simp
        · exact filled group (List.mem_cons_of_mem _ later)
      · rcases List.mem_cons.mp member with rfl | later
        · exact filled _ List.mem_cons_self
        · exact rest group later

/-- No group is empty. -/
theorem byProvider_filled (entries : List (String × String)) :
    ∀ group ∈ byProvider entries, group.2 ≠ [] := by
  have folded : ∀ groups : List (String × List String), (∀ group ∈ groups, group.2 ≠ []) →
      ∀ group ∈ entries.foldl
        (fun groups (chapterID, providerID) => addTo providerID chapterID groups) groups,
        group.2 ≠ [] := by
    induction entries with
    | nil => exact fun groups filled => filled
    | cons entry entries induction => exact fun groups filled => induction _ (addTo_filled filled)
  exact folded [] (by simp)

/-- Each entry belongs to a chapter of the batch. -/
theorem mem_findAll {l : Layout} {disk : Disk} {mangaID : String} {chapterIDs : List String}
    {entries : List (String × String)} (all : findAll l disk mangaID chapterIDs = some entries)
    {entry : String × String} (member : entry ∈ entries) :
    entry.1 ∈ chapterIDs ∧ ∃ chMeta, findChapter l disk mangaID entry.1 = some (chMeta, entry.2) := by
  induction chapterIDs generalizing entries with
  | nil =>
      cases all
      contradiction
  | cons chapterID chapterIDs induction =>
      rw [findAll, List.mapM_cons] at all
      rcases Option.bind_eq_some_iff.mp all with ⟨first, found, all⟩
      rcases Option.bind_eq_some_iff.mp all with ⟨others, rest, all⟩
      cases all
      rcases List.mem_cons.mp member with rfl | later
      · rcases Option.map_eq_some_iff.mp found with ⟨own, located, rfl⟩
        exact ⟨List.mem_cons_self, own.1, located⟩
      · rcases induction rest later with ⟨inBatch, located⟩
        exact ⟨List.mem_cons_of_mem _ inBatch, located⟩

theorem mem_pullPayloads {l : Layout} {w : ChapterWorld} {disk : Disk} {mangaID : String}
    {chapterIDs : List String} {payloads : List PullChapterPayload}
    (all : pullPayloads l w disk mangaID chapterIDs = .ok payloads)
    {payload : PullChapterPayload} (member : payload ∈ payloads) :
    payload.chapterID ∈ chapterIDs ∧
      ∃ chMeta, findChapter l disk mangaID payload.chapterID = some (chMeta, payload.providerID) := by
  induction chapterIDs generalizing payloads with
  | nil =>
      cases all
      contradiction
  | cons chapterID chapterIDs induction =>
      rw [pullPayloads, List.mapM_cons] at all
      cases found : findChapter l disk mangaID chapterID with
      | none => simp [found, bind, Except.bind] at all
      | some own =>
          rw [found] at all
          by_cases capable : w.hasContent own.2 = true
          · simp only [capable, if_true] at all
            cases rest : pullPayloads l w disk mangaID chapterIDs with
            | error reply =>
                rw [pullPayloads] at rest
                simp [rest, bind, Except.bind] at all
            | ok others =>
                have same := rest
                rw [pullPayloads] at same
                simp only [same, bind, Except.bind, pure, Except.pure, Except.ok.injEq] at all
                subst all
                rcases List.mem_cons.mp member with rfl | later
                · exact ⟨List.mem_cons_self, own.1, found⟩
                · rcases induction rest later with ⟨inBatch, located⟩
                  exact ⟨List.mem_cons_of_mem _ inBatch, located⟩
          · simp [capable, bind, Except.bind] at all

end Kiyomi.Api
