import Kiyomi.Foundation.Run
import Kiyomi.Foundation.TimedMap
import Kiyomi.Go.Time
import Mathlib.Logic.Function.Basic

namespace Kiyomi.PluginSdk

open Go

/-! # The cache of the plugin SDK

Every method is the sequence of its sections under the lock of the cache, one step each, and
of what it does between them. The function that `GetOrSet` is given runs under the lock, so
that call is two steps with the lock held. -/

structure Item (V : Type u) where
  value : V
  expiresAt : Time
  hasTTL : Bool
  deriving DecidableEq

namespace Item

variable {V : Type u}

def isExpired (i : Item V) (now : Time) : Bool :=
  if !i.hasTTL then false else !now.notAfter i.expiresAt

/-- The item that a store makes at an instant; without a positive time to live it does not
expire. -/
def stored (value : V) (ttl : Int) (now : Time) : Item V :=
  if 0 < ttl then { value, expiresAt := now.add ttl, hasTTL := true }
  else { value, expiresAt := .zero, hasTTL := false }

end Item

/-- The built-in map, as a function. -/
abbrev Items (K : Type u) (V : Type v) := K → Option (Item V)

/-- What has happened, for the statements only; no step reads it. A `Get` has `read` when it
leaves the section in which it looks the key up, and `got` what it returns when it has checked
the time. `GetOrSet` has `returned`, with `none` for the error of its function. -/
inductive Event (K : Type u) (V : Type v) where
  | set (key : K) (item : Item V)
  | computed (key : K) (item : Item V)
  | deleted (key : K)
  | cleared
  | read (thread : Nat) (key : K)
  | got (thread : Nat) (key : K) (now : Time) (found : Option V)
  | returned (thread : Nat) (key : K) (result : Option V)
  deriving DecidableEq

/-- Who has called `Get`: a caller of its own, or `GetOrSet`. -/
inductive Getter where
  | get
  | getOrSet
  deriving DecidableEq

/-- A goroutine, by the step that comes next. -/
inductive Goroutine (K : Type u) (V : Type v) where
  | idle
  | set (key : K) (value : V) (ttl : Int)
  | read (key : K) (getter : Getter)
  | check (key : K) (getter : Getter) (it : Option (Item V))
  | removeExpired (key : K) (getter : Getter)
  | doubleCheck (key : K)
  | compute (key : K)
  | delete (key : K)
  | clear
  | purgeExpired

/-- The time of a step, and what the function of `GetOrSet` returns. -/
structure CacheAnswer (V : Type v) where
  now : Time
  computed : Option (V × Int) := none

structure CacheMove (K : Type u) (V : Type v) where
  goroutine : Goroutine K V
  items : Items K V
  locked : Bool := false
  events : List (Event K V) := []

/-- After a miss, `Get` returns and `GetOrSet` goes on. -/
def Getter.missed (key : K) : Getter → Goroutine K V
  | .get => .idle
  | .getOrSet => .doubleCheck key

/-- After a hit, `GetOrSet` returns too. -/
def Getter.hit (self : Nat) (key : K) (value : V) : Getter → List (Event K V)
  | .get => []
  | .getOrSet => [.returned self key (some value)]

/-- The lock is taken at the start of a step; `check` does without, and `compute` has it. -/
def Goroutine.locks : Goroutine K V → Bool
  | .check .. | .compute _ => false
  | _ => true

def Goroutine.next [DecidableEq K] (items : Items K V) (locked : Bool) (self : Nat)
    (answer : CacheAnswer V) : Goroutine K V → Option (CacheMove K V)
  | .idle => none
  | .set key value ttl =>
      let it := Item.stored value ttl answer.now
      some
        { goroutine := .idle
          items := Function.update items key (some it)
          events := [.set key it] }
  | .read key getter =>
      some { goroutine := .check key getter (items key), items, events := [.read self key] }
  | .check key getter none =>
      some
        { goroutine := getter.missed key
          items
          locked
          events := [.got self key answer.now none] }
  | .check key getter (some it) =>
      if it.isExpired answer.now then
        some
          { goroutine := .removeExpired key getter
            items
            locked
            events := [.got self key answer.now none] }
      else
        some
          { goroutine := .idle
            items
            locked
            events := getter.hit self key it.value ++ [.got self key answer.now (some it.value)] }
  | .removeExpired key getter =>
      let expired := (items key).any fun current => current.isExpired answer.now
      some
        { goroutine := getter.missed key
          items := if expired then Function.update items key none else items }
  | .doubleCheck key =>
      match (items key).filter fun it => !it.isExpired answer.now with
      | some it =>
          some { goroutine := .idle, items, events := [.returned self key (some it.value)] }
      | none => some { goroutine := .compute key, items, locked := true }
  | .compute key =>
      match answer.computed with
      | some (value, ttl) =>
          let it := Item.stored value ttl answer.now
          some
            { goroutine := .idle
              items := Function.update items key (some it)
              events := [.returned self key (some value), .computed key it] }
      | none => some { goroutine := .idle, items, events := [.returned self key none] }
  | .delete key =>
      some
        { goroutine := .idle
          items := Function.update items key none
          events := [.deleted key] }
  | .clear => some { goroutine := .idle, items := fun _ => none, events := [.cleared] }
  | .purgeExpired =>
      some
        { goroutine := .idle
          items := fun key => (items key).filter fun it => !it.isExpired answer.now }

/-! ## The system -/

structure CacheState (K : Type u) (V : Type v) where
  items : Items K V
  /-- A function of `GetOrSet` runs. -/
  locked : Bool
  clock : Time
  goroutines : Nat → Goroutine K V
  /-- The newest first. -/
  history : List (Event K V)

inductive CacheCall (K : Type u) (V : Type v) where
  | set (key : K) (value : V) (ttl : Int)
  | get (key : K)
  | getOrSet (key : K)
  | delete (key : K)
  | clear
  | purgeExpired

def CacheCall.start : CacheCall K V → Goroutine K V
  | .set key value ttl => .set key value ttl
  | .get key => .read key .get
  | .getOrSet key => .read key .getOrSet
  | .delete key => .delete key
  | .clear => .clear
  | .purgeExpired => .purgeExpired

/-- A goroutine calls a method, or goes on with the one it is in. -/
inductive CacheAction (K : Type u) (V : Type v) where
  | call (thread : Nat) (method : CacheCall K V)
  | advance (thread : Nat) (answer : CacheAnswer V)

namespace CacheState

/-- `New`. -/
def new (clock : Time) : CacheState K V where
  items _ := none
  locked := false
  clock
  goroutines _ := .idle
  history := []

/-- The clock does not go back, and nobody takes the lock while a function runs under it. -/
def advance [DecidableEq K] (s : CacheState K V) (thread : Nat) (answer : CacheAnswer V) :
    Option (CacheState K V) :=
  let goroutine := s.goroutines thread
  if s.clock.notAfter answer.now && !(goroutine.locks && s.locked) then
    (goroutine.next s.items s.locked thread answer).map fun move =>
      { items := move.items
        locked := move.locked
        clock := answer.now
        goroutines := Function.update s.goroutines thread move.goroutine
        history := move.events ++ s.history }
  else none

end CacheState

def cacheStep [DecidableEq K] : StepFunction (CacheState K V) (CacheAction K V) :=
  fun s action =>
    match action with
    | .call thread method =>
        match s.goroutines thread with
        | .idle =>
            some { s with goroutines := Function.update s.goroutines thread method.start }
        | _ => none
    | .advance thread answer => s.advance thread answer

end Kiyomi.PluginSdk
