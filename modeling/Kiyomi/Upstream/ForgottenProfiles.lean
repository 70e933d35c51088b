import Kiyomi.ProviderSdk.HeaderTransport

namespace Kiyomi.Upstream

open Go ProviderSdk

/-! # What a deleted profile leaves behind

Profiles are set and deleted while requests are sent. A profile reaches the requests of its
source by its headers, and all requests of a client by the cookies it leaves in the jar. -/

/-- What stays as it is: the libraries, the registry and the HTTP sources. -/
structure Deployment (Jar : Type) where
  web : Web
  jar : CookieJar Jar
  registry : Option Providers
  sources : Nat → HttpSource

structure Session (Jar : Type) where
  store : MemoryStore
  /-- The jar of the request builder's client. -/
  builder : Jar
  /-- The jars of the sources' clients. -/
  clients : Nat → Jar

inductive Event (Jar : Type)
  | set (sourceID : String) (p : Profile)
  | delete (sourceID : String)
  | build (now : Int) (rawURL providerID explicitReferer : String)
  | fetch (now : Int) (source : Nat) (req : Request)
  /-- The cookies of a response. -/
  | builderResponse (update : Jar → Jar)
  | sourceResponse (source : Nat) (update : Jar → Jar)

variable {Jar : Type} (d : Deployment Jar)

/-- A request of the builder, as its client sends it. -/
def Deployment.sendBuilt (get : String → Option Profile) (j : Jar) (now : Int)
    (rawURL providerID explicitReferer : String) : Option (Request × Jar) := do
  let (req, after) ← buildRequest d.web d.jar now d.registry (some get) (some j) rawURL providerID
    explicitReferer
  let after := after.getD j
  some (withJarCookies d.web d.jar now after req, after)

namespace Session

def initial (builder : Jar) (clients : Nat → Jar) : Session Jar where
  store := ∅
  builder
  clients

def setClient (s : Session Jar) (source : Nat) (j : Jar) : Session Jar :=
  { s with clients := fun other => if other = source then j else s.clients other }

def after (s : Session Jar) : Event Jar → Session Jar
  | .set sourceID p => { s with store := s.store.set d.web.parse sourceID p }
  | .delete sourceID => { s with store := s.store.delete sourceID }
  | .build now rawURL providerID explicitReferer =>
      { s with
        builder := ((d.sendBuilt s.store.get s.builder now rawURL providerID
          explicitReferer).map (·.2)).getD s.builder }
  | .fetch now source req =>
      s.setClient source ((d.sources source).clientDo d.web d.jar now (some s.store.get)
        (s.clients source) req).2
  | .builderResponse update => { s with builder := update s.builder }
  | .sourceResponse source update => s.setClient source (update (s.clients source))

/-- The request that an event sends. -/
def sent (s : Session Jar) : Event Jar → Option Request
  | .build now rawURL providerID explicitReferer =>
      (d.sendBuilt s.store.get s.builder now rawURL providerID explicitReferer).map (·.1)
  | .fetch now source req =>
      some ((d.sources source).clientDo d.web d.jar now (some s.store.get) (s.clients source)
        req).1
  | _ => none

def run (s : Session Jar) (events : List (Event Jar)) : Session Jar := events.foldl (after d) s

/-- The requests that events send. -/
def requests (s : Session Jar) : List (Event Jar) → List (Option Request)
  | [] => []
  | event :: events => s.sent d event :: (s.after d event).requests events

end Session

/-- The calls of `SetCookies` that an event makes when profiles are found like this. -/
def cookieCalls (get : String → Option Profile) : Event Jar → List (Http.URL × List Cookie)
  | .build _ rawURL providerID _ =>
      match d.web.parse rawURL with
      | none => []
      | some _ =>
          let providerID := guessedProvider rawURL providerID
          jarEntries d.web.parse (requestCookies (profileOf (some get) providerID)
            (baseProvider providerID = "mangafox" || ofMangaFox rawURL))
  | .fetch _ source _ =>
      jarEntries d.web.parse ((d.sources source).profile (some get)).cookies
  | _ => []

/-- The event sets a profile for the source, and not a zero one. -/
def Event.sets (sourceID : String) : Event Jar → Bool
  | .set id p => trimSpace id == sourceID && !p.isZero
  | _ => false

/-- The event deletes the profile of the source. -/
def Event.removes (sourceID : String) : Event Jar → Bool
  | .set id p => trimSpace id == sourceID && p.isZero
  | .delete id => trimSpace id == sourceID
  | _ => false

namespace Session

/-- The profile of the source does not change which cookies the event puts into a jar. -/
def SparesJars (sourceID : String) (s : Session Jar) (event : Event Jar) : Prop :=
  cookieCalls d s.store.get event = cookieCalls d (MemoryStore.get (s.store.erase sourceID)) event

instance (sourceID : String) (s : Session Jar) (event : Event Jar) :
    Decidable (s.SparesJars d sourceID event) :=
  inferInstanceAs (Decidable (_ = _))

/-- All events of a run do that. -/
def Spared (sourceID : String) : Session Jar → List (Event Jar) → Prop
  | _, [] => True
  | s, event :: events =>
      s.SparesJars d sourceID event ∧ Spared sourceID (s.after d event) events

/-! ## Sessions that find the same profiles -/

structure Alike (s t : Session Jar) : Prop where
  store : ∀ key, key ≠ "" → t.store.lookup key = s.store.lookup key
  builder : t.builder = s.builder
  clients : t.clients = s.clients

theorem Alike.refl (s : Session Jar) : s.Alike s := ⟨fun _ _ => rfl, rfl, rfl⟩

variable {s t u : Session Jar}

theorem Alike.trans (first : s.Alike t) (second : t.Alike u) : s.Alike u where
  store key some_key := (second.store key some_key).trans (first.store key some_key)
  builder := second.builder.trans first.builder
  clients := second.clients.trans first.clients

theorem Alike.get (alike : s.Alike t) : t.store.get = s.store.get := by
  funext id
  unfold MemoryStore.get
  split
  · rfl
  · rename_i some_key
    exact alike.store _ some_key

theorem Alike.after (alike : s.Alike t) (event : Event Jar) :
    (s.after d event).Alike (t.after d event) := by
  cases event with
  | set id p =>
      rw [Session.after, Session.after]
      refine ⟨fun key some_key => ?_, alike.builder, alike.clients⟩
      rw [MemoryStore.lookup_set, MemoryStore.lookup_set, alike.store key some_key]
  | delete id =>
      rw [Session.after, Session.after]
      refine ⟨fun key some_key => ?_, alike.builder, alike.clients⟩
      rw [MemoryStore.lookup_delete, MemoryStore.lookup_delete, alike.store key some_key]
  | build now rawURL providerID explicitReferer =>
      rw [Session.after, Session.after, alike.get, alike.builder]
      exact ⟨alike.store, rfl, alike.clients⟩
  | fetch now source req =>
      rw [Session.after, Session.after, alike.get, alike.clients]
      refine ⟨alike.store, alike.builder, ?_⟩
      rw [setClient, setClient, alike.clients]
  | builderResponse update =>
      rw [Session.after, Session.after]
      exact ⟨alike.store, congrArg update alike.builder, alike.clients⟩
  | sourceResponse source update =>
      rw [Session.after, Session.after, alike.clients]
      refine ⟨alike.store, alike.builder, ?_⟩
      rw [setClient, setClient, alike.clients]

theorem Alike.sent (alike : s.Alike t) (event : Event Jar) : t.sent d event = s.sent d event := by
  cases event with
  | build now rawURL providerID explicitReferer =>
      simp only [Session.sent, alike.get, alike.builder]
  | fetch now source req => simp only [Session.sent, alike.get, alike.clients]
  | set _ _ => rfl
  | delete _ => rfl
  | builderResponse _ => rfl
  | sourceResponse _ _ => rfl

theorem Alike.requests (alike : s.Alike t) (events : List (Event Jar)) :
    t.requests d events = s.requests d events := by
  induction events generalizing s t with
  | nil => rfl
  | cons event events induction =>
      rw [Session.requests, Session.requests, alike.sent, induction (alike.after d event)]

/-! ## Without the profile -/

/-- The session without the profile of a source. -/
def forget (sourceID : String) (s : Session Jar) : Session Jar :=
  { s with store := s.store.erase sourceID }

variable {d} {sourceID : String} {event : Event Jar}

theorem after_build (now : Int) (rawURL providerID explicitReferer : String) :
    s.after d (.build now rawURL providerID explicitReferer) =
      { s with
        builder := d.jar.setAll now s.builder
          (cookieCalls d s.store.get (.build now rawURL providerID explicitReferer)) } := by
  cases parsed : d.web.parse rawURL with
  | none => simp [Session.after, Deployment.sendBuilt, buildRequest, cookieCalls, parsed,
      CookieJar.setAll]
  | some u => simp [Session.after, Deployment.sendBuilt, buildRequest, cookieCalls, parsed]

theorem after_fetch (now : Int) (source : Nat) (req : Request) :
    s.after d (.fetch now source req) =
      s.setClient source (d.jar.setAll now (s.clients source)
        (cookieCalls d s.store.get (.fetch now source req))) := by
  rw [Session.after, HttpSource.clientDo, HttpSource.roundTrip_jar]
  rfl

/-- An event forgets a profile with its session, if it neither sets it nor puts its cookies into a
jar. -/
theorem forget_after (spared : s.SparesJars d sourceID event)
    (other : event.sets sourceID = false) :
    ((s.after d event).forget sourceID).Alike ((s.forget sourceID).after d event) := by
  cases event with
  | set id p =>
      rw [Session.after, Session.after, forget, forget]
      refine ⟨fun key some_key => ?_, rfl, rfl⟩
      rw [MemoryStore.lookup_set, Map.lookup_erase, Map.lookup_erase, MemoryStore.lookup_set]
      by_cases mine : key = sourceID
      · rw [if_pos mine]
        split
        · rename_i stored
          -- Only a zero profile is set for this source.
          have zero : p.isZero := by simpa [Event.sets, ← stored.2.2, mine] using other
          rw [if_pos zero]
        · rfl
      · rw [if_neg mine, if_neg mine]
  | delete id =>
      rw [Session.after, Session.after, forget, forget]
      refine ⟨fun key some_key => ?_, rfl, rfl⟩
      rw [MemoryStore.lookup_delete, Map.lookup_erase, Map.lookup_erase,
        MemoryStore.lookup_delete]
      by_cases same : key = sourceID <;> simp [same]
  | build now rawURL providerID explicitReferer =>
      rw [after_build, after_build]
      exact ⟨fun _ _ => rfl, congrArg (d.jar.setAll now s.builder) spared.symm, rfl⟩
  | fetch now source req =>
      rw [after_fetch, after_fetch]
      exact ⟨fun _ _ => rfl, rfl, congrArg
        (fun calls => (s.setClient source (d.jar.setAll now (s.clients source) calls)).clients)
        spared.symm⟩
  | builderResponse update => exact .refl _
  | sourceResponse source update => exact .refl _

theorem forget_sets (sets : event.sets sourceID = true) :
    ((s.after d event).forget sourceID).Alike (s.forget sourceID) := by
  cases event with
  | set id p =>
      have mine : trimSpace id = sourceID := by
        simp only [Event.sets, Bool.and_eq_true, beq_iff_eq] at sets
        exact sets.1
      rw [Session.after, forget, forget]
      refine ⟨fun key some_key => ?_, rfl, rfl⟩
      rw [Map.lookup_erase, Map.lookup_erase, MemoryStore.lookup_set, mine]
      by_cases same : key = sourceID <;> simp [same]
  | delete _ => contradiction
  | build _ _ _ _ => contradiction
  | fetch _ _ _ => contradiction
  | builderResponse _ => contradiction
  | sourceResponse _ _ => contradiction

/-- After a deletion there is no difference between having the profile and not having it. -/
theorem removes_alike (removes : event.removes sourceID = true) :
    (s.after d event).Alike ((s.forget sourceID).after d event) := by
  cases event with
  | set id p =>
      simp only [Event.removes, Bool.and_eq_true, beq_iff_eq] at removes
      rw [Session.after, Session.after, forget]
      refine ⟨fun key some_key => ?_, rfl, rfl⟩
      rw [MemoryStore.lookup_set, MemoryStore.lookup_set, Map.lookup_erase, removes.1]
      by_cases same : key = sourceID
      · simp [same, removes.2, Profile.valid_of_isZero removes.2, same ▸ some_key]
      · simp [same]
  | delete id =>
      simp only [Event.removes, beq_iff_eq] at removes
      rw [Session.after, Session.after, forget]
      refine ⟨fun key some_key => ?_, rfl, rfl⟩
      rw [MemoryStore.lookup_delete, MemoryStore.lookup_delete, Map.lookup_erase, removes]
      by_cases same : key = sourceID
      · simp [same, same ▸ some_key]
      · simp [same]
  | build _ _ _ _ => contradiction
  | fetch _ _ _ => contradiction
  | builderResponse _ => contradiction
  | sourceResponse _ _ => contradiction

/-- The run in which the profile is never set. -/
theorem forget_run {events : List (Event Jar)} (spared : s.Spared d sourceID events)
    (alike : (s.forget sourceID).Alike t) :
    ((s.run d events).forget sourceID).Alike
      (t.run d (events.filter fun event => !event.sets sourceID)) := by
  induction events generalizing s t with
  | nil => exact alike
  | cons event events induction =>
      cases sets : event.sets sourceID with
      | true =>
          rw [List.filter_cons_of_neg (by simp [sets])]
          exact induction spared.2 ((forget_sets sets).trans alike)
      | false =>
          rw [List.filter_cons_of_pos (by simp [sets])]
          exact induction spared.2 ((forget_after spared.1 sets).trans (alike.after d event))

theorem run_append (before later : List (Event Jar)) :
    s.run d (before ++ later) = (s.run d before).run d later :=
  List.foldl_append

/-- A deleted profile is forgotten if no request has put other cookies into a jar because of it:
all later requests are those of the run in which it was never set. -/
theorem forgotten (d : Deployment Jar) (sourceID : String) (builder : Jar) (clients : Nat → Jar)
    (before later : List (Event Jar)) (removal : Event Jar)
    (spared : (initial builder clients).Spared d sourceID before)
    (removes : removal.removes sourceID = true) :
    ((initial builder clients).run d (before ++ [removal])).requests d later =
      ((initial builder clients).run d
        (before.filter (fun event => !event.sets sourceID) ++ [removal])).requests d later := by
  have nothing : ((initial builder clients).forget sourceID).Alike (initial builder clients) :=
    ⟨fun _ _ => rfl, rfl, rfl⟩
  have forgets := forget_run spared nothing
  rw [run_append, run_append]
  exact ((removes_alike removes).trans (forgets.after d removal)).requests d later |>.symm

section Comics

/-- A jar that keeps cookies by the host that set them. -/
def hostJar : CookieJar (List (String × Cookie)) where
  setCookies j _ u given := given.foldl (fun j c =>
    if j.any fun kept => kept.1 = u.hostname ∧ kept.2.name = c.name then
      j.map fun kept => if kept.1 = u.hostname ∧ kept.2.name = c.name then (kept.1, c) else kept
    else j ++ [(u.hostname, c)]) j
  cookies j _ u := (j.filter fun kept => kept.1 = u.hostname).map (·.2)

/-- Addresses of the form `https://host/path`. -/
def secureWeb : Web where
  parse rawURL :=
    if hasPrefix rawURL "https://" then
      let (host, path) := cut '/' (rawURL.toList.drop 8)
      some { scheme := "https", host := String.ofList host, rest := String.ofList (path.getD []) }
    else none
  cookieText c := c.name ++ "=" ++ c.value
  cookieNames header := (jarCookies header).map (·.name)

def comics : Deployment (List (String × Cookie)) where
  web := secureWeb
  jar := hostJar
  registry := none
  sources _ := { id := "comics", userAgent := "", clientHints := none }

def agentProfile : Profile := { Profile.zero with userAgent := "Reader/1.0" }

def loginProfile : Profile :=
  { Profile.zero with cookies := AList.singleton "https://comics.test" "session=abc" }

def page (now : Int) : Event (List (String × Cookie)) :=
  .build now "https://comics.test/1.jpg" "comics" ""

/-- The `Cookie` headers that are sent after events. -/
def cookieHeaders (events later : List (Event (List (String × Cookie)))) : List (Option String) :=
  (((initial [] fun _ => []).run comics events).requests comics later).map fun req =>
    req.map (·.getHeader "Cookie")

theorem forgotten_user_agent :
    ((initial [] fun _ => []).run comics [.set "comics" agentProfile, page 0, .delete "comics"]
        ).requests comics [page 1] =
      ((initial [] fun _ => []).run comics [page 0, .delete "comics"]).requests comics [page 1] :=
  forgotten comics "comics" [] (fun _ => []) [.set "comics" agentProfile, page 0] [page 1]
    (.delete "comics") ⟨by decide, by decide, trivial⟩ rfl

/-- The login of a deleted profile is sent with later requests. -/
theorem login_survives_deletion :
    cookieHeaders [.set "comics" loginProfile, page 0, .delete "comics"] [page 1] =
        [some "session=abc"] ∧
      cookieHeaders [page 0, .delete "comics"] [page 1] = [some ""] := by
  decide

end Comics

end Session

end Kiyomi.Upstream
