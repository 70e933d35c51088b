import Kiyomi.Go.Strings
import Kiyomi.Foundation.Occurrences

namespace Kiyomi.Go

/-! # The case of letters -/

/-- `unicode.ToLower`: ASCII as ever, the tables of Unicode elsewhere. -/
structure CaseTable where
  toLower : Char → Char
  ascii : ∀ c, c.toNat < 128 → toLower c = c.toLower

namespace CaseTable

def asciiOnly : CaseTable where
  toLower := Char.toLower
  ascii _ _ := rfl

/-- `strings.ToLower` -/
def lower (table : CaseTable) (s : String) : String := String.ofList (s.toList.map table.toLower)

theorem toList_lower_append (table : CaseTable) (s t : String) :
    (table.lower (s ++ t)).toList = (table.lower s).toList ++ (table.lower t).toList := by
  simp only [lower, String.toList_ofList, String.toList_append, List.map_append]

/-- Text without capital letters stays as it is. -/
theorem lower_of_small (table : CaseTable) {s : String}
    (small : ∀ c ∈ s.toList, c.toNat < 128 ∧ c.toLower = c) :
    (table.lower s).toList = s.toList := by
  rw [lower, String.toList_ofList]
  refine (List.map_congr_left fun c member => ?_).trans (List.map_id _)
  exact (table.ascii c (small c member).1).trans (small c member).2

theorem toList_lower_toString (table : CaseTable) (n : Nat) :
    (table.lower (toString n)).toList = Nat.toDigits 10 n := by
  rw [lower_of_small, toList_toString_nat]
  intro c member
  rw [toList_toString_nat] at member
  have digit := Char.isDigit_iff_toNat.1 (List.all_eq_true.1 (isDigit_toDigits n) c member)
  have below : c.toNat ≤ 57 := digit.2
  refine ⟨by omega, dif_neg fun capital => ?_⟩
  have above : 65 ≤ c.toNat := UInt32.le_iff_toNat_le.1 capital.1
  omega

end CaseTable

end Kiyomi.Go

namespace Kiyomi.ProviderSdk

open Go

/-! # Kinds of provider errors -/

inductive ErrorKind
  | transient
  | auth
  | permanent
  | rateLimit
  deriving DecidableEq

/-- An error that wraps nothing: whether it is `io.EOF` or `net.ErrClosed`, and whether it is a
`net.Error` that reports a timeout. -/
structure Failure where
  message : String
  eof : Bool := false
  closed : Bool := false
  timeout : Bool := false

/-- An error and the errors it wraps. -/
inductive GoError
  | failure (f : Failure)
  /-- `fmt.Errorf("%s: %w", context, cause)` -/
  | wrap (context : String) (cause : GoError)
  /-- A `ProviderError` -/
  | provider (kind : ErrorKind) (providerID message : String) (retryAfter : Int)
      (cause : Option GoError)

namespace ErrorKind

def string : ErrorKind → String
  | .transient => "transient"
  | .auth => "auth"
  | .permanent => "permanent"
  | .rateLimit => "rate_limit"

end ErrorKind

namespace GoError

/-- The message of an error. -/
def error : GoError → String
  | .failure f => f.message
  | .wrap context cause => context ++ ": " ++ cause.error
  | .provider kind providerID message _ none =>
      "provider " ++ providerID ++ " [" ++ kind.string ++ "]: " ++ message
  | .provider kind providerID message _ (some cause) =>
      "provider " ++ providerID ++ " [" ++ kind.string ++ "]: " ++ message ++ ": " ++ cause.error

/-- `errors.As` for a `ProviderError`: the kind and the delay of the outermost one. -/
def asProviderError : GoError → Option (ErrorKind × Int)
  | .failure _ => none
  | .wrap _ cause => cause.asProviderError
  | .provider kind _ _ retryAfter _ => some (kind, retryAfter)

/-- Where `errors.Is` ends. -/
def innermost : GoError → Option Failure
  | .failure f => some f
  | .wrap _ cause => cause.innermost
  | .provider _ _ _ _ none => none
  | .provider _ _ _ _ (some cause) => cause.innermost

end GoError

/-- `time.Second` -/
def second : Int := 1000000000

/-- The heuristic of `DefaultClassifier` on a message in lower case. -/
def classifyMessage (msg : String) : ErrorKind × Int :=
  if contains msg "401" || contains msg "403" || contains msg "unauthorized" ||
      contains msg "forbidden" || contains msg "auth" then
    (.auth, 0)
  else if contains msg "404" || contains msg "410" || contains msg "not found" ||
      contains msg "gone" then
    (.permanent, 0)
  else if contains msg "429" || contains msg "too many requests" ||
      contains msg "rate limit" then
    (.rateLimit, 30 * second)
  else if contains msg "timeout" || contains msg "deadline" ||
      contains msg "connection refused" || contains msg "eof" || contains msg "reset" ||
      contains msg "temporary" then
    (.transient, 5 * second)
  else (.transient, 0)

def defaultClassifier (table : CaseTable) (err : Option GoError) : ErrorKind × Int :=
  match err with
  | none => (.transient, 0)
  | some err =>
      match err.asProviderError with
      | some found => found
      | none => classifyMessage (table.lower err.error)

def classifyHTTPStatus (statusCode : Nat) (retryAfterHeader : String) : ErrorKind × Int :=
  if statusCode = 401 ∨ statusCode = 403 then (.auth, 0)
  else if statusCode = 404 ∨ statusCode = 410 then (.permanent, 0)
  else if statusCode = 429 then
    match atoi retryAfterHeader with
    | some secs =>
        -- The product is computed in 64 bits.
        if 0 < secs then (.rateLimit, Int.bmod (secs * second) (2 ^ 64))
        else (.rateLimit, 30 * second)
    | none => (.rateLimit, 30 * second)
  else if statusCode = 500 ∨ statusCode = 502 ∨ statusCode = 503 ∨ statusCode = 504 then
    (.transient, 5 * second)
  else (.transient, 0)

def isTransientError (table : CaseTable) (err : Option GoError) (resp : Option Nat) : Bool :=
  match err with
  | some err =>
      err.innermost.any (fun f => f.eof || f.closed || f.timeout) ||
        (defaultClassifier table (some err)).1 = .transient
  | none => resp.any fun statusCode => statusCode = 502 || statusCode = 503 || statusCode = 504

/-! ## The kind of a message -/

theorem contains_iff {s part : String} : contains s part = true ↔ part.toList <:+: s.toList := by
  rw [contains, List.any_eq_true, List.infix_iff_prefix_suffix]
  constructor
  · rintro ⟨tail, member, start⟩
    exact ⟨tail, List.isPrefixOf_iff_prefix.1 start, (List.mem_tails _ _).1 member⟩
  · rintro ⟨tail, start, member⟩
    exact ⟨tail, (List.mem_tails _ _).2 member, List.isPrefixOf_iff_prefix.2 start⟩

def authFragments : List String := ["401", "403", "unauthorized", "forbidden", "auth"]

def permanentFragments : List String := ["404", "410", "not found", "gone"]

def rateLimitFragments : List String := ["429", "too many requests", "rate limit"]

def Mentions (fragments : List String) (text : List Char) : Prop :=
  ∃ fragment ∈ fragments, fragment.toList <:+: text

/-- The first of the three that holds decides the kind. -/
def kindOf (auth permanent rateLimit : Prop) [Decidable auth] [Decidable permanent]
    [Decidable rateLimit] : ErrorKind :=
  if auth then .auth else if permanent then .permanent else if rateLimit then .rateLimit
  else .transient

instance (fragments : List String) (text : List Char) : Decidable (Mentions fragments text) :=
  inferInstanceAs (Decidable (∃ fragment ∈ fragments, fragment.toList <:+: text))

theorem kind_classifyMessage (msg : String) :
    (classifyMessage msg).1 = kindOf (Mentions authFragments msg.toList)
      (Mentions permanentFragments msg.toList) (Mentions rateLimitFragments msg.toList) := by
  have auth : (contains msg "401" || contains msg "403" || contains msg "unauthorized" ||
      contains msg "forbidden" || contains msg "auth") = true ↔
        Mentions authFragments msg.toList := by
    simp only [Bool.or_eq_true, contains_iff, Mentions, authFragments, List.exists_mem_cons_iff,
      List.not_mem_nil, false_and, exists_false, or_false, or_assoc]
  have permanent : (contains msg "404" || contains msg "410" || contains msg "not found" ||
      contains msg "gone") = true ↔ Mentions permanentFragments msg.toList := by
    simp only [Bool.or_eq_true, contains_iff, Mentions, permanentFragments,
      List.exists_mem_cons_iff, List.not_mem_nil, false_and, exists_false, or_false, or_assoc]
  have rateLimit : (contains msg "429" || contains msg "too many requests" ||
      contains msg "rate limit") = true ↔ Mentions rateLimitFragments msg.toList := by
    simp only [Bool.or_eq_true, contains_iff, Mentions, rateLimitFragments,
      List.exists_mem_cons_iff, List.not_mem_nil, false_and, exists_false, or_false, or_assoc]
  rw [classifyMessage, kindOf]
  simp only [auth, permanent, rateLimit]
  split
  · rfl
  · split
    · rfl
    · split
      · rfl
      · split <;> rfl

theorem kind_classifyHTTPStatus (statusCode : Nat) (retryAfterHeader : String) :
    (classifyHTTPStatus statusCode retryAfterHeader).1 =
      kindOf (statusCode = 401 ∨ statusCode = 403) (statusCode = 404 ∨ statusCode = 410)
        (statusCode = 429) := by
  rw [classifyHTTPStatus, kindOf]
  split
  · rfl
  · split
    · rfl
    · split
      · cases atoi retryAfterHeader with
        | none => rfl
        | some secs =>
            simp only
            split <;> rfl
      · split <;> rfl

section Kinds

variable {auth permanent rateLimit auth' permanent' rateLimit' : Prop} [Decidable auth]
  [Decidable permanent] [Decidable rateLimit] [Decidable auth'] [Decidable permanent']
  [Decidable rateLimit']

theorem kindOf_eq_iff (more_auth : auth' → auth) (more_permanent : permanent' → permanent)
    (more_rateLimit : rateLimit' → rateLimit) :
    kindOf auth permanent rateLimit = kindOf auth' permanent' rateLimit' ↔
      (auth → auth') ∧ (permanent → auth' ∨ permanent') ∧
        (rateLimit → auth' ∨ permanent' ∨ rateLimit') := by
  by_cases first : auth'
  · simp [kindOf, first, more_auth first]
  · by_cases second : permanent'
    · by_cases third : auth <;> simp [kindOf, first, second, third, more_permanent second]
    · by_cases third : rateLimit'
      · by_cases fourth : auth <;> by_cases fifth : permanent <;>
          simp [kindOf, first, second, third, fourth, fifth, more_rateLimit third]
      · by_cases fourth : auth <;> by_cases fifth : permanent <;> by_cases sixth : rateLimit <;>
          simp [kindOf, first, second, third, fourth, fifth, sixth]

end Kinds

end Kiyomi.ProviderSdk
