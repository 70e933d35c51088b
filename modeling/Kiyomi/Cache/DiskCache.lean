import Kiyomi.Foundation.Run
import Kiyomi.Go.Time
import Mathlib.Algebra.Ring.Int.Defs
import Mathlib.Data.List.Sort
import Mathlib.Logic.Function.Basic

namespace Kiyomi.Cache

open Go

/-! # The disk cache of images

Three operations work on the files of the cache: `GetPath`, `GetOrFetch` and
`PurgeExpiredAndLRU`. Each is the sequence of its file operations and lock
operations, one step each; files are addressed by the hash that `paths` builds their
names from. The first two guard what they do with one lock, the purge takes none. -/

/-! ## Files -/

structure Meta where
  contentType : String
  contentLength : Int
  createdAt : Time
  lastAccessed : Time
  deriving DecidableEq, Repr

namespace Meta

/-- The zero value that a failed `json.Unmarshal` leaves. -/
def zero : Meta :=
  { contentType := "", contentLength := 0, createdAt := .zero, lastAccessed := .zero }

/-- The two describe one stored image; a hit changes the time of access only. -/
def sameEntry (m other : Meta) : Bool :=
  m.contentType == other.contentType && m.contentLength == other.contentLength &&
    m.createdAt == other.createdAt

end Meta

/-- An image file. `storedAs` is the metadata of the store operation that wrote it;
no step reads it. -/
structure Image where
  size : Int
  modTime : Time
  storedAs : Meta

/-- A sidecar file and what it parses to; `none` is a file that a failed write left
truncated. -/
structure Sidecar where
  content : Option Meta
  modTime : Time

structure Temp where
  size : Int
  modTime : Time

structure Files where
  images : String → Option Image
  sidecars : String → Option Sidecar
  temps : Nat → Option Temp

/-- The environment's choices for one step: how its file operation ends, the time, what
the upstream sends, and which worker of a purge moves. -/
structure Answer where
  fails : Bool := false
  torn : Bool := false
  now : Time := .zero
  fetched : Meta := .zero
  written : Int := 0
  temp : Nat := 0
  worker : Nat := 0

namespace Files

def empty : Files where
  images _ := none
  sidecars _ := none
  temps _ := none

def setImage (files : Files) (hash : String) (image : Option Image) : Files :=
  { files with images := Function.update files.images hash image }

def setSidecar (files : Files) (hash : String) (sidecar : Option Sidecar) : Files :=
  { files with sidecars := Function.update files.sidecars hash sidecar }

def setTemp (files : Files) (temp : Nat) (file : Option Temp) : Files :=
  { files with temps := Function.update files.temps temp file }

/-- `os.Remove` of an image, which may fail. -/
def removeImage (files : Files) (hash : String) (answer : Answer) : Files :=
  if answer.fails then files else files.setImage hash none

def removeSidecar (files : Files) (hash : String) (answer : Answer) : Files :=
  if answer.fails then files else files.setSidecar hash none

def removeTemp (files : Files) (temp : Nat) (answer : Answer) : Files :=
  if answer.fails then files else files.setTemp temp none

/-- `os.WriteFile` of a sidecar. It truncates the file first, so that a failure may
leave the file as it was or torn. -/
def writeSidecar (files : Files) (hash : String) (content : Meta) (answer : Answer) : Files :=
  if answer.fails then
    if answer.torn then
      files.setSidecar hash (some { content := none, modTime := answer.now })
    else files
  else files.setSidecar hash (some { content := some content, modTime := answer.now })

/-- `os.ReadFile` and `json.Unmarshal` of a sidecar. -/
def readSidecar (files : Files) (hash : String) (answer : Answer) : Option Meta :=
  if answer.fails then none else (files.sidecars hash).bind Sidecar.content

end Files

/-! ## Program counters -/

structure DiskCache where
  ttl : Int
  maxBytes : Int

/-- The age check of a hit. -/
def DiskCache.expired (cache : DiskCache) (found : Meta) (now : Time) : Bool :=
  0 < cache.ttl && !found.createdAt.isZero && cache.ttl < now.sub found.createdAt

/-- Where `GetPath` was called: by a caller of its own, at the start of `GetOrFetch`,
or by the leader of a flight. -/
inductive Caller where
  | getPath
  | getOrFetch
  | leader (call : Nat)

inductive Lookup where
  | rLock
  | stat
  | readFile
  | rUnlock (hit : Option Meta)
  | lock (copy : Meta)
  | writeFile (copy : Meta)
  | unlock (copy : Meta)

/-- The function that `GetOrFetch` hands to the singleflight group, after its lookup. -/
inductive Store where
  | mkdirAll
  | fetch
  | createTemp (fetched : Meta)
  | copy (fetched : Meta) (temp : Nat)
  | close (fetched : Meta) (temp : Nat) (written : Int)
  | lock (stored : Meta) (temp : Nat)
  | rename (stored : Meta) (temp : Nat)
  | writeFile (stored : Meta) (temp : Nat)
  | removeImage (temp : Nat)
  | unlock (temp : Option Nat) (stored : Option Meta)
  | removeTemp (temp : Nat)

structure CacheEntry where
  hash : String
  size : Int
  createdAt : Time
  lastAccessed : Time

/-- A file in the hands of a purge worker, by the operation that comes next. -/
inductive Task where
  | image (hash : String)
  | readFile (hash : String) (size : Int) (modTime : Time)
  | removeExpired (hash : String) (size : Int)
  | removeExpiredSidecar (hash : String) (size : Int)
  | sidecar (hash : String)
  | sidecarInfo (hash : String)
  | removeOrphan (hash : String)
  | temp (temp : Nat)
  | removeTemp (temp : Nat)
  | remove (item : CacheEntry)
  | removeSidecar (item : CacheEntry)

structure Purge where
  now : Time
  pruning : Bool := false
  tasks : List Task := []
  activeItems : List CacheEntry := []
  totalPurged : Int := 0

inductive Result where
  | path (found : Option Meta)
  | image (opened : Option Meta)
  | purged (bytes : Int)

inductive Thread where
  | free (last : Option Result)
  | lookup (hash : String) (caller : Caller) (pc : Lookup)
  | openCached (hash : String) (copy : Meta)
  | join (hash : String)
  | waiting (hash : String) (call : Nat)
  | store (hash : String) (call : Nat) (pc : Store)
  | finish (hash : String) (call : Nat) (result : Option Meta)
  | openResult (hash : String) (result : Option Meta)
  | purge (purge : Purge)

/-- The singleflight group: the call in flight for a hash, and how calls ended. -/
structure Flights where
  open? : String → Option Nat
  results : Nat → Option (Option Meta)
  calls : Nat

inductive LockStep where
  | keep
  | rLock
  | rUnlock
  | lock
  | unlock

/-- What one step of a thread does. -/
structure Move where
  thread : Thread
  files : Files
  flights : Flights
  locking : LockStep := .keep

/-! ## `GetPath` -/

/-- The return of a lookup to the function that called it. -/
def Caller.resume (hash : String) (found : Option Meta) : Caller → Thread
  | .getPath => .free (some (.path found))
  | .getOrFetch =>
      match found with
      | some copy => .openCached hash copy
      | none => .join hash
  | .leader call =>
      match found with
      | some copy => .finish hash call (some copy)
      | none => .store hash call .mkdirAll

def Lookup.next (cache : DiskCache) (files : Files) (flights : Flights) (answer : Answer)
    (hash : String) (caller : Caller) : Lookup → Move
  | .rLock => { thread := .lookup hash caller .stat, files, flights, locking := .rLock }
  | .stat =>
      if answer.fails || (files.images hash).isNone then
        { thread := .lookup hash caller (.rUnlock none), files, flights }
      else { thread := .lookup hash caller .readFile, files, flights }
  | .readFile =>
      let hit := (files.readSidecar hash answer).filter fun found =>
        !cache.expired found answer.now
      { thread := .lookup hash caller (.rUnlock hit), files, flights }
  | .rUnlock none => { thread := caller.resume hash none, files, flights, locking := .rUnlock }
  | .rUnlock (some found) =>
      { thread := .lookup hash caller (.lock { found with lastAccessed := answer.now })
        files, flights, locking := .rUnlock }
  | .lock copy =>
      { thread := .lookup hash caller (.writeFile copy), files, flights, locking := .lock }
  | .writeFile copy =>
      { thread := .lookup hash caller (.unlock copy)
        files := files.writeSidecar hash copy answer
        flights }
  | .unlock copy =>
      { thread := caller.resume hash (some copy), files, flights, locking := .unlock }

/-! ## `GetOrFetch` -/

/-- The fields that `GetOrFetch` fills in before it stores the metadata. -/
def Meta.fill (fetched : Meta) (written : Int) (now : Time) : Meta :=
  { fetched with
    createdAt := if fetched.createdAt.isZero then now else fetched.createdAt
    lastAccessed := now
    contentLength := if fetched.contentLength ≤ 0 then written else fetched.contentLength }

/-- One step of the leader; `none` when the name of the temporary file is taken. -/
def Store.next (files : Files) (flights : Flights) (answer : Answer) (hash : String)
    (call : Nat) : Store → Option Move
  | .mkdirAll =>
      if answer.fails then some { thread := .finish hash call none, files, flights }
      else some { thread := .store hash call .fetch, files, flights }
  | .fetch =>
      if answer.fails then some { thread := .finish hash call none, files, flights }
      else some { thread := .store hash call (.createTemp answer.fetched), files, flights }
  | .createTemp fetched =>
      if answer.fails then some { thread := .finish hash call none, files, flights }
      else if (files.temps answer.temp).isSome then none
      else
        some
          { thread := .store hash call (.copy fetched answer.temp)
            files := files.setTemp answer.temp (some { size := 0, modTime := answer.now })
            flights }
  | .copy fetched temp =>
      let files :=
        if (files.temps temp).isSome then
          files.setTemp temp (some { size := answer.written, modTime := answer.now })
        else files
      if answer.fails then
        some { thread := .store hash call (.removeTemp temp), files, flights }
      else
        some { thread := .store hash call (.close fetched temp answer.written), files, flights }
  | .close fetched temp written =>
      -- A failing `json.Marshal` takes the same way out as a failing `Close`.
      if answer.fails then
        some { thread := .store hash call (.removeTemp temp), files, flights }
      else
        let stored := fetched.fill written answer.now
        some { thread := .store hash call (.lock stored temp), files, flights }
  | .lock stored temp =>
      some
        { thread := .store hash call (.rename stored temp), files, flights, locking := .lock }
  | .rename stored temp =>
      match files.temps temp, answer.fails with
      | some file, false =>
          let image := { size := file.size, modTime := file.modTime, storedAs := stored }
          some
            { thread := .store hash call (.writeFile stored temp)
              files := (files.setTemp temp none).setImage hash (some image)
              flights }
      | _, _ =>
          some { thread := .store hash call (.unlock (some temp) none), files, flights }
  | .writeFile stored temp =>
      let files := files.writeSidecar hash stored answer
      if answer.fails then
        some { thread := .store hash call (.removeImage temp), files, flights }
      else
        some { thread := .store hash call (.unlock none (some stored)), files, flights }
  | .removeImage temp =>
      some
        { thread := .store hash call (.unlock (some temp) none)
          files := files.removeImage hash answer
          flights }
  | .unlock none stored =>
      some { thread := .finish hash call stored, files, flights, locking := .unlock }
  | .unlock (some temp) _ =>
      some
        { thread := .store hash call (.removeTemp temp), files, flights, locking := .unlock }
  | .removeTemp temp =>
      some
        { thread := .finish hash call none
          files := files.removeTemp temp answer
          flights }

/-- `singleflight.Group.Do`: the first caller leads, the others wait for its result. -/
def Flights.join (flights : Flights) (hash : String) : Thread × Flights :=
  match flights.open? hash with
  | some call => (.waiting hash call, flights)
  | none =>
      let call := flights.calls
      let flights :=
        { flights with
          open? := Function.update flights.open? hash (some call)
          calls := call + 1 }
      (.lookup hash (.leader call) .rLock, flights)

def Flights.finish (flights : Flights) (hash : String) (call : Nat) (result : Option Meta) :
    Flights :=
  { flights with
    open? := Function.update flights.open? hash none
    results := Function.update flights.results call (some result) }

/-! ## `PurgeExpiredAndLRU` -/

/-- What is left of a file after one operation of a worker. -/
inductive Processed where
  | more (task : Task)
  | done (entry : Option CacheEntry) (purged : Int)

def Task.next (cache : DiskCache) (now : Time) (files : Files) (answer : Answer) :
    Task → Processed × Files
  | .image hash =>
      match files.images hash, answer.fails with
      | some info, false => (.more (.readFile hash info.size info.modTime), files)
      | _, _ => (.done none 0, files)
  | .readFile hash size modTime =>
      let found := (files.readSidecar hash answer).getD .zero
      let createdAt := if found.createdAt.isZero then modTime else found.createdAt
      let lastAccessed := if found.lastAccessed.isZero then createdAt else found.lastAccessed
      if 0 < cache.ttl && cache.ttl < now.sub createdAt then
        (.more (.removeExpired hash size), files)
      else (.done (some { hash, size, createdAt, lastAccessed }) 0, files)
  | .removeExpired hash size =>
      (.more (.removeExpiredSidecar hash size), files.removeImage hash answer)
  | .removeExpiredSidecar hash size => (.done none size, files.removeSidecar hash answer)
  | .sidecar hash =>
      if !answer.fails && (files.images hash).isNone then (.more (.sidecarInfo hash), files)
      else (.done none 0, files)
  | .sidecarInfo hash =>
      match files.sidecars hash with
      | some info =>
          if 5000000000 < now.sub info.modTime then (.more (.removeOrphan hash), files)
          else (.done none 0, files)
      | none => (.done none 0, files)
  | .removeOrphan hash => (.done none 0, files.removeSidecar hash answer)
  | .temp name =>
      match files.temps name with
      | some info =>
          if 1800000000000 < now.sub info.modTime then (.more (.removeTemp name), files)
          else (.done none 0, files)
      | none => (.done none 0, files)
  | .removeTemp name => (.done none 0, files.removeTemp name answer)
  | .remove item => (.more (.removeSidecar item), files.removeImage item.hash answer)
  | .removeSidecar item => (.done none 0, files.removeSidecar item.hash answer)

/-- The oldest accessed items until the rest fits. -/
def toDelete (maxBytes : Int) : Int → List CacheEntry → List CacheEntry
  | _, [] => []
  | totalSize, item :: items =>
      if totalSize ≤ maxBytes then []
      else item :: toDelete maxBytes (totalSize - item.size) items

def DiskCache.prune (cache : DiskCache) (activeItems : List CacheEntry) : List CacheEntry :=
  let totalSize := (activeItems.map CacheEntry.size).sum
  if 0 < cache.maxBytes && cache.maxBytes < totalSize then
    toDelete cache.maxBytes totalSize
      (activeItems.insertionSort fun i j => i.lastAccessed.notAfter j.lastAccessed = true)
  else []

/-- The next operation of one worker, or the end of a phase when all are done. -/
def Purge.next (cache : DiskCache) (files : Files) (answer : Answer) (purge : Purge) :
    Option (Thread × Files) :=
  match purge.tasks, focus answer.worker purge.tasks with
  | [], _ =>
      if purge.pruning then some (.free (some (.purged purge.totalPurged)), files)
      else
        let items := cache.prune purge.activeItems
        let pruning :=
          { purge with
            pruning := true
            tasks := items.map .remove
            totalPurged := purge.totalPurged + (items.map CacheEntry.size).sum }
        some (.purge pruning, files)
  | _ :: _, none => none
  | _ :: _, some (before, task, after) =>
      match task.next cache purge.now files answer with
      | (.more task, files) =>
          some (.purge { purge with tasks := before ++ task :: after }, files)
      | (.done entry purged, files) =>
          let purge :=
            { purge with
              tasks := before ++ after
              activeItems := purge.activeItems ++ entry.toList
              totalPurged := purge.totalPurged + purged }
          some (.purge purge, files)

/-! ## The system -/

def Thread.next (cache : DiskCache) (files : Files) (flights : Flights) (answer : Answer) :
    Thread → Option Move
  | .free _ => none
  | .lookup hash caller pc => some (pc.next cache files flights answer hash caller)
  | .openCached hash copy =>
      if answer.fails || (files.images hash).isNone then
        some { thread := .join hash, files, flights }
      else some { thread := .free (some (.image (some copy))), files, flights }
  | .join hash =>
      let (thread, flights) := flights.join hash
      some { thread, files, flights }
  | .waiting hash call =>
      (flights.results call).map fun result =>
        { thread := .openResult hash result, files, flights }
  | .store hash call pc => pc.next files flights answer hash call
  | .finish hash call result =>
      some
        { thread := .openResult hash result
          files
          flights := flights.finish hash call result }
  | .openResult hash result =>
      let opened := if answer.fails || (files.images hash).isNone then none else result
      some { thread := .free (some (.image opened)), files, flights }
  | .purge state =>
      (state.next cache files answer).map fun (thread, files) => { thread, files, flights }

structure State where
  files : Files
  flights : Flights
  writer : Option Nat
  readers : Nat
  threads : Nat → Thread

inductive Operation where
  | getPath (hash : String)
  | getOrFetch (hash : String)
  | purgeExpiredAndLRU (now : Time)

/-- A thread calls an operation, goes on with the one it is in, or a worker of its purge
takes up a directory entry. -/
inductive Action where
  | call (thread : Nat) (operation : Operation)
  | advance (thread : Nat) (answer : Answer)
  | visitImage (thread : Nat) (hash : String)
  | visitSidecar (thread : Nat) (hash : String)
  | visitTemp (thread : Nat) (temp : Nat)

def Operation.start : Operation → Thread
  | .getPath hash => .lookup hash .getPath .rLock
  | .getOrFetch hash => .lookup hash .getOrFetch .rLock
  | .purgeExpiredAndLRU now => .purge { now }

namespace State

/-- A cache opened on a directory, with nothing running. -/
def opened (files : Files) : State where
  files
  flights := { open? := fun _ => none, results := fun _ => none, calls := 0 }
  writer := none
  readers := 0
  threads _ := .free none

def setThread (s : State) (thread : Nat) (next : Thread) : State :=
  { s with threads := Function.update s.threads thread next }

/-- Carry out a move; `none` while the lock is not to be had. -/
def apply (s : State) (thread : Nat) (move : Move) : Option State :=
  let moved :=
    { s.setThread thread move.thread with files := move.files, flights := move.flights }
  match move.locking with
  | .keep => some moved
  | .rLock => if s.writer.isNone then some { moved with readers := s.readers + 1 } else none
  | .rUnlock => some { moved with readers := s.readers - 1 }
  | .lock =>
      if s.writer.isNone && s.readers == 0 then some { moved with writer := some thread }
      else none
  | .unlock => some { moved with writer := none }

/-- The listing is not atomic: a worker may take up any name. -/
def visit (s : State) (thread : Nat) (task : Task) : Option State :=
  match s.threads thread with
  | .purge state =>
      if state.pruning then none
      else some (s.setThread thread (.purge { state with tasks := state.tasks ++ [task] }))
  | _ => none

end State

def DiskCache.step (cache : DiskCache) : StepFunction State Action := fun s action =>
  match action with
  | .call thread operation =>
      match s.threads thread with
      | .free _ => some (s.setThread thread operation.start)
      | _ => none
  | .advance thread answer =>
      ((s.threads thread).next cache s.files s.flights answer).bind (s.apply thread)
  | .visitImage thread hash => s.visit thread (.image hash)
  | .visitSidecar thread hash => s.visit thread (.sidecar hash)
  | .visitTemp thread temp => s.visit thread (.temp temp)

end Kiyomi.Cache
