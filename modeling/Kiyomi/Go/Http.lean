import Mathlib.Data.String.Basic
import Mathlib.Logic.Relation

namespace Kiyomi.Go.Http

/-! # The client of `net/http`

`Client.Do` for a GET request: the requests that are sent, and how redirects are followed. -/

structure URL where
  scheme : String
  /-- With the port. -/
  host : String
  /-- User information, path, query and fragment. -/
  rest : String
  deriving DecidableEq

namespace URL

/-- Cut a port off, if it is empty or a number. -/
def withoutPort (host : List Char) : List Char :=
  match host.reverse.span (· != ':') with
  | (_, []) => host
  | (port, _ :: name) => if port.all Char.isDigit then name.reverse else host

/-- `Hostname`: the host without the port, and without the brackets of an IPv6 address. -/
def hostname (u : URL) : String :=
  let name := withoutPort u.host.toList
  String.ofList (if name.head? = some '[' ∧ name.getLast? = some ']' then name.tail.dropLast else name)

/-- The transport refuses other schemes, and a URL without a host. -/
def sendable (u : URL) : Bool := (u.scheme == "http" || u.scheme == "https") && u.host != ""

end URL

structure Response where
  statusCode : Nat
  /-- The `Location` header, empty when there is none. -/
  location : String
  contentType : String
  body : List UInt8

/-- What a client meets. -/
structure Network where
  /-- `URL.Parse` of a reference. -/
  resolve : URL → String → Option URL
  /-- The response to a request after the earlier ones, or none after an error. -/
  respond : (earlier : List URL) → URL → Option Response

/-- How a request ends. -/
inductive Exchange
  /-- The transport refuses the URL. -/
  | notSent
  | failed
  | finished (resp : Response)
  | redirect (u : URL)

variable (net : Network)

def redirectStatus : List Nat := [301, 302, 303, 307, 308]

/-- What a response to a GET request leads to. -/
def redirectBehavior (u : URL) (resp : Response) : Exchange :=
  if ¬ redirectStatus.contains resp.statusCode then .finished resp
  else if resp.location = "" then .finished resp
  else
    match net.resolve u resp.location with
    | none => .failed
    | some v => .redirect v

def exchange (earlier : List URL) (u : URL) : Exchange :=
  if ¬ u.sendable then .notSent
  else
    match net.respond earlier u with
    | none => .failed
    | some resp => redirectBehavior net u resp

/-- Send a request, and follow at most so many redirects. The result is the requests sent and
the last response. -/
def send (earlier : List URL) (u : URL) (left : Nat) : List URL × Option Response :=
  match exchange net earlier u, left with
  | .notSent, _ => ([], none)
  | .failed, _ => ([u], none)
  | .finished resp, _ => ([u], some resp)
  | .redirect _, 0 => ([u], none)
  | .redirect v, left + 1 =>
      let (others, last) := send (earlier ++ [u]) v left
      (u :: others, last)

/-- `defaultCheckRedirect` stops before an eleventh request. -/
def maxRequests : Nat := 10

def clientDo (u : URL) : List URL × Option Response := send net [] u (maxRequests - 1)

/-! ## Chains of redirects -/

/-- Where a client stands: the requests it has sent, and the URL it requests next. -/
inductive Follows : List URL × URL → List URL × URL → Prop
  | redirect {earlier : List URL} {u v : URL} (redirects : exchange net earlier u = .redirect v)
      (allowed : earlier.length + 1 < maxRequests) : Follows (earlier, u) (earlier ++ [u], v)

variable {net}

theorem exchange_eq_notSent {earlier : List URL} {u : URL} :
    exchange net earlier u = .notSent ↔ ¬ u.sendable := by
  unfold exchange
  split
  · simp_all
  · rename_i sent
    refine iff_of_false ?_ sent
    split
    · simp
    · unfold redirectBehavior
      split
      · simp
      split
      · simp
      split <;> simp

/-- The chain of redirects leads to this URL. -/
def Reaches (net : Network) (earlier : List URL) (u v : URL) : Prop :=
  ∃ before, Relation.ReflTransGen (Follows net) (earlier, u) (before, v)

theorem Reaches.refl {earlier : List URL} {u : URL} : Reaches net earlier u u := ⟨earlier, .refl⟩

/-- A client that follows no redirect stands still. -/
theorem reaches_of_still {earlier : List URL} {u v : URL}
    (still : ∀ place, ¬ Follows net (earlier, u) place) : Reaches net earlier u v ↔ v = u := by
  constructor
  · rintro ⟨before, reached⟩
    rcases reached.cases_head with same | ⟨place, step, _⟩
    · cases same
      rfl
    · exact absurd step (still place)
  · rintro rfl
    exact .refl

theorem reaches_of_redirect {earlier : List URL} {u v w : URL}
    (redirects : exchange net earlier u = .redirect w)
    (allowed : earlier.length + 1 < maxRequests) :
    Reaches net earlier u v ↔ v = u ∨ Reaches net (earlier ++ [u]) w v := by
  constructor
  · rintro ⟨before, reached⟩
    rcases reached.cases_head with same | ⟨place, step, rest⟩
    · cases same
      exact .inl rfl
    · cases step with
      | redirect redirects' _ =>
          cases redirects.symm.trans redirects'
          exact .inr ⟨before, rest⟩
  · rintro (rfl | ⟨before, rest⟩)
    · exact .refl
    · exact ⟨before, rest.head (.redirect redirects allowed)⟩

/-! ## The requests that are sent -/

theorem requests_of_notSent {earlier : List URL} {u : URL} (left : Nat)
    (exchanged : exchange net earlier u = .notSent) : (send net earlier u left).1 = [] := by
  unfold send
  split <;> simp_all

theorem requests_of_redirect {earlier : List URL} {u w : URL} (left : Nat)
    (exchanged : exchange net earlier u = .redirect w) :
    (send net earlier u (left + 1)).1 = u :: (send net (earlier ++ [u]) w left).1 := by
  conv_lhs => unfold send
  split <;> simp_all

theorem requests_of_still {earlier : List URL} {u : URL} (left : Nat)
    (sent : exchange net earlier u ≠ .notSent)
    (still : left = 0 ∨ ∀ w, exchange net earlier u ≠ .redirect w) :
    (send net earlier u left).1 = [u] := by
  unfold send
  split <;> simp_all

theorem mem_send_of_still {left : Nat} {earlier : List URL} {u v : URL}
    (ended : left = 0 ∨ ∀ w, exchange net earlier u ≠ .redirect w)
    (still : ∀ place, ¬ Follows net (earlier, u) place) :
    v ∈ (send net earlier u left).1 ↔ v.sendable ∧ Reaches net earlier u v := by
  rw [reaches_of_still still]
  by_cases refused : exchange net earlier u = .notSent
  · rw [requests_of_notSent left refused]
    simp only [List.not_mem_nil, false_iff]
    rintro ⟨sendable, rfl⟩
    exact exchange_eq_notSent.1 refused sendable
  · have sendable : u.sendable :=
      not_not.1 fun unsendable => refused (exchange_eq_notSent.2 unsendable)
    rw [requests_of_still left refused ended, List.mem_singleton]
    exact ⟨fun same => ⟨same ▸ sendable, same⟩, And.right⟩

/-- The client requests the URLs that the chain of redirects reaches and that can be sent. -/
theorem mem_send {left : Nat} {earlier : List URL} {u v : URL}
    (total : earlier.length + 1 + left = maxRequests) :
    v ∈ (send net earlier u left).1 ↔ v.sendable ∧ Reaches net earlier u v := by
  induction left generalizing earlier u with
  | zero =>
      refine mem_send_of_still (.inl rfl) ?_
      rintro _ ⟨_, allowed⟩
      omega
  | succ left induction =>
      by_cases redirected : ∃ w, exchange net earlier u = .redirect w
      · rcases redirected with ⟨w, redirects⟩
        have sendable : u.sendable := by
          by_contra unsendable
          rw [exchange_eq_notSent.2 unsendable] at redirects
          cases redirects
        have later : (earlier ++ [u]).length + 1 + left = maxRequests := by
          rw [List.length_append, List.length_singleton]
          omega
        rw [requests_of_redirect left redirects, List.mem_cons,
          reaches_of_redirect redirects (by omega), induction later]
        constructor
        · rintro (rfl | ⟨sendable, reached⟩)
          · exact ⟨sendable, .inl rfl⟩
          · exact ⟨sendable, .inr reached⟩
        · rintro ⟨sendable, rfl | reached⟩
          · exact .inl rfl
          · exact .inr ⟨sendable, reached⟩
      · have no_redirect := not_exists.1 redirected
        refine mem_send_of_still (.inr no_redirect) ?_
        rintro _ ⟨redirects, _⟩
        exact no_redirect _ redirects

theorem mem_clientDo {u v : URL} :
    v ∈ (clientDo net u).1 ↔ v.sendable ∧ Reaches net [] u v := mem_send rfl

/-! ## Predicates on all requests -/

/-- Whatever is redirected to, and can be sent, meets the condition. -/
def RedirectsTo (net : Network) (good : URL → Prop) (u : URL) : Prop :=
  ∀ before v w, Relation.ReflTransGen (Follows net) ([], u) (before, v) →
    Follows net (before, v) (before ++ [v], w) → w.sendable → good w

/-- All requests of a good first URL are good when no redirect leads to a bad one. -/
theorem forall_requests_iff {good : URL → Prop} {u : URL} (first : good u) :
    (∀ v ∈ (clientDo net u).1, good v) ↔ RedirectsTo net good u := by
  constructor
  · intro all before v w reached follows sendable
    exact all w (mem_clientDo.2 ⟨sendable, _, reached.tail follows⟩)
  · intro redirected v requested
    rcases mem_clientDo.1 requested with ⟨sendable, before, reached⟩
    rcases reached.cases_tail with same | ⟨⟨before', u'⟩, earlier, last⟩
    · cases same
      exact first
    · rcases last with ⟨redirects, allowed⟩
      exact redirected _ _ _ earlier (.redirect redirects allowed) sendable

end Kiyomi.Go.Http
