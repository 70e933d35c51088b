import Kiyomi.Go.Map
import Kiyomi.Go.Strings

namespace Kiyomi.Provider

open Go

/-! # The provider registry -/

/-- A value that implements `sdk.Provider`, with what its optional methods return: `none`
for a method it does not have. -/
structure Provider where
  /-- The identity of the object; Go compares providers by it. -/
  object : Nat
  id : String
  pluginID : Option String := none
  version : Option String := none
  isBuiltIn : Option Bool := none
  isMetadata : Bool := false
  isContent : Bool := false
  isTracking : Bool := false
  deriving DecidableEq

namespace Provider

/-- The plugin that `Register` notes for a provider. -/
def registeredPluginID (p : Provider) : String := p.pluginID.getD ""

/-- The version that `Register` notes for a provider. -/
def registeredVersion (p : Provider) : String :=
  match p.version with
  | none => "0.0.0"
  | some version => if version = "" then "0.0.0" else version

/-- Whether `Register` takes a provider for a built-in. -/
def registeredBuiltIn (p : Provider) : Bool :=
  p.isBuiltIn.getD (p.registeredPluginID == "")

end Provider

structure Candidate where
  provider : Provider
  pluginID : String
  version : String
  isBuiltIn : Bool
  deriving DecidableEq

namespace Candidate

def ofProvider (p : Provider) : Candidate where
  provider := p
  pluginID := p.registeredPluginID
  version := p.registeredVersion
  isBuiltIn := p.registeredBuiltIn

/-- What `Register` compares to find the entry that a provider replaces. -/
def slot (c : Candidate) : String × Bool := (c.pluginID, c.isBuiltIn)

/-- The namespaced handle; a plugin candidate without a plugin id has none. -/
def handle (baseID : String) (c : Candidate) : Option String :=
  if c.isBuiltIn then some (baseID ++ "@builtin")
  else if c.pluginID ≠ "" then some (baseID ++ "@" ++ c.pluginID)
  else none

/-- The source `pref` names this candidate. -/
def isNamed (pref : String) (c : Candidate) : Bool :=
  (pref == "builtin" && c.isBuiltIn) || (!c.isBuiltIn && c.pluginID == pref)

end Candidate

/-! ## Versions -/

/-- Major, minor and patch number of a version text; what is no number counts as zero. -/
def clean (version : String) : Int × Int × Int :=
  let s := (trimSpace version).toList
  let s := if s.head? = some 'v' then s.tail else s
  let parts := (splitChars '.' (cut '-' s).1).map fun part => atoiValue (String.ofList part)
  (parts.getD 0 0, parts.getD 1 0, parts.getD 2 0)

def compareVersionStrings (v1 v2 : String) : Int :=
  let (maj1, min1, pat1) := clean v1
  let (maj2, min2, pat2) := clean v2
  if maj1 ≠ maj2 then if maj1 > maj2 then 1 else -1
  else if min1 ≠ min2 then if min1 > min2 then 1 else -1
  else if pat1 ≠ pat2 then if pat1 > pat2 then 1 else -1
  else 0

/-- The first candidate that no other one exceeds in version. -/
def highestVersion : List Candidate → Option Candidate
  | [] => none
  | first :: rest => some <| rest.foldl
      (fun winner c => if compareVersionStrings c.version winner.version > 0 then c else winner)
      first

/-- The candidate of an explicit preference. -/
def preferred (pref : String) (list : List Candidate) : Option Candidate :=
  if pref ≠ "" then list.find? (Candidate.isNamed pref) else none

/-- The winner that `recomputeWinner` elects. -/
def elect (pref : String) (list : List Candidate) : Option Candidate :=
  let builtinCand := list.find? Candidate.isBuiltIn
  let preferredCand := preferred pref list
  if builtinCand.isSome && (pref == "" || pref == "builtin") then builtinCand
  else if preferredCand.isSome then preferredCand
  else if builtinCand.isSome then builtinCand
  else highestVersion list

/-! ## The registry -/

structure Registry where
  provs : Map String Provider
  /-- Only providers that implement `sdk.Metadata` are routed here. -/
  metadata : Map String Provider
  content : Map String Provider
  tracking : Map String Provider
  candidates : Map String (List Candidate)
  userPrefs : Map String String

namespace Registry

/-- `NewRegistry`. -/
def new : Registry where
  provs := ∅
  metadata := ∅
  content := ∅
  tracking := ∅
  candidates := ∅
  userPrefs := ∅

/-- Indexing a map that lacks the key gives the zero value. -/
def candidatesOf (r : Registry) (baseID : String) : List Candidate :=
  (r.candidates.lookup baseID).getD []

def preference (r : Registry) (baseID : String) : String :=
  (r.userPrefs.lookup baseID).getD ""

def indexProvider (r : Registry) (handle : String) (p : Provider) : Registry :=
  { r with
    provs := r.provs.insert handle p
    metadata := if p.isMetadata then r.metadata.insert handle p else r.metadata.erase handle
    content := if p.isContent then r.content.insert handle p else r.content.erase handle
    tracking := if p.isTracking then r.tracking.insert handle p else r.tracking.erase handle }

/-- Delete a handle from the four maps. -/
def deleteHandle (r : Registry) (handle : String) : Registry :=
  { r with
    provs := r.provs.erase handle
    metadata := r.metadata.erase handle
    content := r.content.erase handle
    tracking := r.tracking.erase handle }

def clearRouting (r : Registry) (baseID : String) : Registry :=
  let r := r.deleteHandle baseID
  (r.provs.keys.filter fun k => hasPrefix k (baseID ++ "@")).foldl deleteHandle r

def recomputeWinner (r : Registry) (baseID : String) : Registry :=
  let list := r.candidatesOf baseID
  let r := r.clearRouting baseID
  match elect (r.preference baseID) list with
  | none => r
  | some winner =>
      list.foldl
        (fun r c =>
          match c.handle baseID with
          | none => r
          | some handle => r.indexProvider handle c.provider)
        (r.indexProvider baseID winner.provider)

def setUserPreference (r : Registry) (providerID preferredSource : String) : Registry :=
  { r with userPrefs := r.userPrefs.insert providerID preferredSource }.recomputeWinner providerID

/-- Change the first entry that satisfies `found`, if there is one. -/
def updateFirst (found : Candidate → Bool) (change : Candidate → Candidate) :
    List Candidate → Option (List Candidate)
  | [] => none
  | c :: rest =>
      if found c then some (change c :: rest)
      else (updateFirst found change rest).map (c :: ·)

def withCandidates (r : Registry) (baseID : String) (list : List Candidate) : Registry :=
  { r with candidates := r.candidates.insert baseID list }

/-- `Register` for a value that is an `sdk.Provider`. -/
def register (r : Registry) (p : Provider) : Registry :=
  let cand := Candidate.ofProvider p
  let list := r.candidatesOf p.id
  let list := (updateFirst (fun c => c.slot == cand.slot) (fun _ => cand) list).getD (list ++ [cand])
  (r.withCandidates p.id list).recomputeWinner p.id

/-- The entry of a provider after its replacement. -/
def swapped (newProv : Provider) (c : Candidate) : Candidate :=
  { c with
    provider := newProv
    version :=
      match newProv.version with
      | none => c.version
      | some version => if version ≠ "" then version else c.version }

def swapProvider (r : Registry) (baseID : String) (oldProv newProv : Provider) :
    Bool × Registry :=
  match updateFirst (fun c => c.provider = oldProv) (swapped newProv) (r.candidatesOf baseID) with
  | none => (false, r)
  | some list => (true, (r.withCandidates baseID list).recomputeWinner baseID)

/-- What `Unregister` and `UnregisterPlugin` do with the candidates they keep. -/
def keepCandidates (r : Registry) (baseID : String) (newList : List Candidate) : Registry :=
  if newList = [] then { r with candidates := r.candidates.erase baseID }.clearRouting baseID
  else (r.withCandidates baseID newList).recomputeWinner baseID

def unregister (r : Registry) (id : String) : Registry :=
  match cut '@' id.toList with
  | (baseID, some targetPluginID) =>
      let baseID := String.ofList baseID
      let target := String.ofList targetPluginID
      r.keepCandidates baseID <| (r.candidatesOf baseID).filter fun c =>
        !((c.isBuiltIn && target == "builtin") || (!c.isBuiltIn && c.pluginID == target))
  | (_, none) =>
      r.keepCandidates id ((r.candidatesOf id).filter fun c => !(c.provider.id == id))

def unregisterPlugin (r : Registry) (pluginID : String) : Registry :=
  r.candidates.keys.foldl
    (fun r baseID => r.keepCandidates baseID <|
      (r.candidatesOf baseID).filter fun c => !(!c.isBuiltIn && c.pluginID == pluginID))
    r

/-! ## Lookups -/

def get (r : Registry) (id : String) : Option Provider := r.provs.lookup id

def getMetadata (r : Registry) (id : String) : Option Provider := r.metadata.lookup id

def getContent (r : Registry) (id : String) : Option Provider := r.content.lookup id

def getTracking (r : Registry) (id : String) : Option Provider := r.tracking.lookup id

/-- The values under the handles that are no namespaced ones. -/
def primary (m : Map String Provider) : List Provider :=
  (m.entries.filter fun entry => '@' ∉ entry.1.toList).map (·.2)

def listContent (r : Registry) : List Provider := primary r.content

def listMetadata (r : Registry) : List Provider := primary r.metadata

/-- The providers that answer the questions of a `ProviderInfo`, each with its reported id. -/
def listInfo (r : Registry) : List (String × Provider) :=
  (primary r.provs).map fun p => (p.id, p)

def listAllInfo (r : Registry) : List (String × Provider) :=
  r.provs.entries.map fun entry => (entry.1, entry.2)

/-- Some lookup returns the provider. -/
def Finds (r : Registry) (p : Provider) : Prop :=
  (∃ id, r.get id = some p ∨ r.getMetadata id = some p ∨ r.getContent id = some p ∨
    r.getTracking id = some p) ∨
  p ∈ r.listContent ∨ p ∈ r.listMetadata ∨ p ∈ r.listInfo.map Prod.snd ∨
    p ∈ r.listAllInfo.map Prod.snd

/-! ## Operations -/

inductive Operation
  /-- `none` for a value that is no `sdk.Provider`. -/
  | register (p : Option Provider)
  | swapProvider (baseID : String) (oldProv newProv : Provider)
  | unregister (id : String)
  | unregisterPlugin (pluginID : String)
  | setUserPreference (providerID preferredSource : String)

def apply (r : Registry) : Operation → Registry
  | .register none => r
  | .register (some p) => r.register p
  | .swapProvider baseID oldProv newProv => (r.swapProvider baseID oldProv newProv).2
  | .unregister id => r.unregister id
  | .unregisterPlugin pluginID => r.unregisterPlugin pluginID
  | .setUserPreference providerID preferredSource =>
      r.setUserPreference providerID preferredSource

end Registry

end Kiyomi.Provider
