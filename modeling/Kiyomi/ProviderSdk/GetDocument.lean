import Kiyomi.ProviderSdk.Errors
import Mathlib.Data.Bool.AllAny

namespace Kiyomi.ProviderSdk

open Go Occurrences

/-! # The errors of `GetDocument`

They spell out the address, and the classifier searches the whole message. -/

/-- What happens to the request. -/
inductive Answer (Document : Type)
  | notMade (err : GoError)
  | failed (err : GoError)
  | response (statusCode : Nat) (document : Except GoError Document)

/-- `fmt.Errorf("http %d for %s", …)` -/
def statusError (statusCode : Nat) (targetURL : String) : GoError :=
  .failure { message := "http " ++ toString statusCode ++ " for " ++ targetURL }

/-- `fmt.Errorf("http request failed for %s: %w", …)` -/
def requestError (targetURL : String) (err : GoError) : GoError :=
  .wrap ("http request failed for " ++ targetURL) err

def getDocument (targetURL : String) : Answer Document → Except GoError Document
  | .notMade err => .error (.wrap "failed to create request" err)
  | .failed err => .error (requestError targetURL err)
  | .response statusCode document =>
      if statusCode ≠ 200 then .error (statusError statusCode targetURL)
      else
        match document with
        | .error err => .error (.wrap "failed to parse html document" err)
        | .ok doc => .ok doc

/-! ## Where the fragments can stand -/

def kindFragments : List String := authFragments ++ permanentFragments ++ rateLimitFragments

/-- No fragment begins in a word of the messages. -/
theorem not_isInfix_firstWord : ∀ fragment ∈ kindFragments,
    ∀ word ∈ ["", "http", "for", "request", "failed"],
      ¬ firstWord ' ' fragment.toList <:+: word.toList := by
  decide

/-- A fragment is a single word, or begins with a word that is no number. -/
theorem firstWord_cases : ∀ fragment ∈ kindFragments,
    firstWord ' ' fragment.toList = fragment.toList ∨
      (firstWord ' ' fragment.toList).any (fun c => !c.isDigit) = true := by
  decide

theorem colon_not_mem : ∀ fragment ∈ kindFragments, ':' ∉ fragment.toList := by
  decide

variable {fragment : String}

theorem infix_of_word (known : fragment ∈ kindFragments) {word : String} {after : List Char}
    (plain : word ∈ ["", "http", "for", "request", "failed"]) (free : ' ' ∉ word.toList)
    (occurs : fragment.toList <:+: word.toList ++ ' ' :: after) : fragment.toList <:+: after :=
  (infix_append_cons free occurs).resolve_left (not_isInfix_firstWord fragment known word plain)

theorem infix_of_number (known : fragment ∈ kindFragments) {n : Nat} {after : List Char}
    (occurs : fragment.toList <:+: Nat.toDigits 10 n ++ ' ' :: after) :
    fragment.toList <:+: Nat.toDigits 10 n ∨ fragment.toList <:+: after := by
  have digits := List.all_eq_true.1 (isDigit_toDigits n)
  have free : ' ' ∉ Nat.toDigits 10 n := fun member => absurd (digits _ member) (by decide)
  rcases infix_append_cons free occurs with word | inside
  · rcases firstWord_cases fragment known with whole | other
    · exact Or.inl (whole ▸ word)
    · rcases List.any_eq_true.1 other with ⟨c, member, no_digit⟩
      rw [Bool.not_eq_true'] at no_digit
      exact absurd (digits c (word.subset member)) (by simp [no_digit])
  · exact Or.inr inside

variable (table : CaseTable)

theorem lower_statusError (statusCode : Nat) (targetURL : String) :
    (table.lower (statusError statusCode targetURL).error).toList =
      "http".toList ++ ' ' :: (Nat.toDigits 10 statusCode ++
        ' ' :: ("for".toList ++ ' ' :: (table.lower targetURL).toList)) := by
  simp only [statusError, GoError.error, CaseTable.toList_lower_append,
    CaseTable.toList_lower_toString]
  rw [CaseTable.lower_of_small table (s := "http ") (List.all_iff_forall_prop.1 (by decide)),
    CaseTable.lower_of_small table (s := " for ") (List.all_iff_forall_prop.1 (by decide))]
  simp

theorem lower_requestError (targetURL : String) (err : GoError) :
    (table.lower (requestError targetURL err).error).toList =
      "http".toList ++ ' ' :: ("request".toList ++ ' ' :: ("failed".toList ++
        ' ' :: ("for".toList ++ ' ' :: ((table.lower targetURL).toList ++
          ':' :: ("".toList ++ ' ' :: (table.lower err.error).toList))))) := by
  simp only [requestError, GoError.error, CaseTable.toList_lower_append]
  rw [CaseTable.lower_of_small table (s := "http request failed for ")
      (List.all_iff_forall_prop.1 (by decide)),
    CaseTable.lower_of_small table (s := ": ") (List.all_iff_forall_prop.1 (by decide))]
  simp

variable {fragments : List String}

theorem mentions_statusError (known : fragments ⊆ kindFragments) (statusCode : Nat)
    (targetURL : String) :
    Mentions fragments (table.lower (statusError statusCode targetURL).error).toList ↔
      Mentions fragments (Nat.toDigits 10 statusCode) ∨
        Mentions fragments (table.lower targetURL).toList := by
  rw [lower_statusError]
  constructor
  · rintro ⟨fragment, member, occurs⟩
    have behind := infix_of_word (known member) (by simp) (by decide) occurs
    rcases infix_of_number (known member) behind with number | inside
    · exact Or.inl ⟨fragment, member, number⟩
    · exact Or.inr ⟨fragment, member, infix_of_word (known member) (by simp) (by decide) inside⟩
  · rintro (⟨fragment, member, occurs⟩ | ⟨fragment, member, occurs⟩)
    · exact ⟨fragment, member, occurs.trans ⟨"http ".toList,
        ' ' :: ("for".toList ++ ' ' :: (table.lower targetURL).toList), by simp⟩⟩
    · exact ⟨fragment, member, occurs.trans ⟨"http ".toList ++
        (Nat.toDigits 10 statusCode ++ " for ".toList), [], by simp⟩⟩

theorem mentions_requestError (known : fragments ⊆ kindFragments) (targetURL : String)
    (err : GoError) :
    Mentions fragments (table.lower (requestError targetURL err).error).toList ↔
      Mentions fragments (table.lower err.error).toList ∨
        Mentions fragments (table.lower targetURL).toList := by
  rw [lower_requestError]
  constructor
  · rintro ⟨fragment, member, occurs⟩
    have kept := known member
    have request := infix_of_word kept (by simp) (by decide) occurs
    have failed := infix_of_word kept (by simp) (by decide) request
    have address := infix_of_word kept (by simp) (by decide)
      (infix_of_word kept (by simp) (by decide) failed)
    rcases (infix_append_cons_iff (colon_not_mem fragment kept)).1 address with inside | inside
    · exact Or.inr ⟨fragment, member, inside⟩
    · exact Or.inl ⟨fragment, member, infix_of_word kept (by simp) (by decide) inside⟩
  · rintro (⟨fragment, member, occurs⟩ | ⟨fragment, member, occurs⟩)
    · exact ⟨fragment, member, occurs.trans ⟨"http request failed for ".toList ++
        ((table.lower targetURL).toList ++ ": ".toList), [], by simp⟩⟩
    · exact ⟨fragment, member, occurs.trans ⟨"http request failed for ".toList,
        ": ".toList ++ (table.lower err.error).toList, by simp⟩⟩

/-! ## When the address does not count -/

/-- What a text mentions is not tested before the kind that holds. -/
structure Spares (auth permanent rateLimit : Prop) (text : List Char) : Prop where
  ofAuth : Mentions authFragments text → auth
  ofPermanent : Mentions permanentFragments text → auth ∨ permanent
  ofRateLimit : Mentions rateLimitFragments text → auth ∨ permanent ∨ rateLimit

/-- The text leaves the kind of a status as it is. -/
def SparesStatus (statusCode : Nat) (text : List Char) : Prop :=
  Spares (statusCode = 401 ∨ statusCode = 403) (statusCode = 404 ∨ statusCode = 410)
    (statusCode = 429) text

/-- The text leaves the kind of a message as it is. -/
def SparesMessage (msg text : List Char) : Prop :=
  Spares (Mentions authFragments msg) (Mentions permanentFragments msg)
    (Mentions rateLimitFragments msg) text

theorem auth_known : authFragments ⊆ kindFragments := fun _ member =>
  List.mem_append_left _ (List.mem_append_left _ member)

theorem permanent_known : permanentFragments ⊆ kindFragments := fun _ member =>
  List.mem_append_left _ (List.mem_append_right _ member)

theorem rateLimit_known : rateLimitFragments ⊆ kindFragments := fun _ member =>
  List.mem_append_right _ member

theorem kind_statusError (statusCode : Nat) (targetURL retryAfterHeader : String) :
    (defaultClassifier table (some (statusError statusCode targetURL))).1 =
        (classifyHTTPStatus statusCode retryAfterHeader).1 ↔
      SparesStatus statusCode (Nat.toDigits 10 statusCode) ∧
        SparesStatus statusCode (table.lower targetURL).toList := by
  have message : (defaultClassifier table (some (statusError statusCode targetURL))).1 =
      (classifyMessage (table.lower (statusError statusCode targetURL).error)).1 := rfl
  rw [message, kind_classifyMessage, kind_classifyHTTPStatus, kindOf_eq_iff]
  · rw [mentions_statusError table auth_known, mentions_statusError table permanent_known,
      mentions_statusError table rateLimit_known]
    constructor
    · rintro ⟨auth, permanent, rateLimit⟩
      exact ⟨⟨fun h => auth (.inl h), fun h => permanent (.inl h), fun h => rateLimit (.inl h)⟩,
        ⟨fun h => auth (.inr h), fun h => permanent (.inr h), fun h => rateLimit (.inr h)⟩⟩
    · rintro ⟨number, address⟩
      exact ⟨(Or.elim · number.ofAuth address.ofAuth),
        (Or.elim · number.ofPermanent address.ofPermanent),
        (Or.elim · number.ofRateLimit address.ofRateLimit)⟩
  · rintro (rfl | rfl)
    · exact (mentions_statusError table auth_known _ _).2 (.inl (by decide))
    · exact (mentions_statusError table auth_known _ _).2 (.inl (by decide))
  · rintro (rfl | rfl)
    · exact (mentions_statusError table permanent_known _ _).2 (.inl (by decide))
    · exact (mentions_statusError table permanent_known _ _).2 (.inl (by decide))
  · rintro rfl
    exact (mentions_statusError table rateLimit_known _ _).2 (.inl (by decide))

theorem kind_requestError (targetURL : String) (err : GoError) :
    (defaultClassifier table (some (requestError targetURL err))).1 =
        (defaultClassifier table (some err)).1 ↔
      (err.asProviderError = none →
        SparesMessage (table.lower err.error).toList (table.lower targetURL).toList) := by
  have inner : (requestError targetURL err).asProviderError = err.asProviderError := rfl
  cases found : err.asProviderError with
  | some kind => simp [defaultClassifier, inner, found]
  | none =>
      have message (e : GoError) (none_found : e.asProviderError = none) :
          defaultClassifier table (some e) = classifyMessage (table.lower e.error) := by
        rw [defaultClassifier, none_found]
      rw [message _ found, message _ (inner.trans found), kind_classifyMessage,
        kind_classifyMessage, kindOf_eq_iff]
      · rw [mentions_requestError table auth_known, mentions_requestError table permanent_known,
          mentions_requestError table rateLimit_known]
        constructor
        · rintro ⟨auth, permanent, rateLimit⟩ -
          exact ⟨fun h => auth (.inr h), fun h => permanent (.inr h), fun h => rateLimit (.inr h)⟩
        · intro spared
          have address := spared rfl
          exact ⟨(Or.elim · id address.ofAuth), (Or.elim · .inr address.ofPermanent),
            (Or.elim · (.inr ∘ .inr) address.ofRateLimit)⟩
      · exact fun h => (mentions_requestError table auth_known _ _).2 (.inl h)
      · exact fun h => (mentions_requestError table permanent_known _ _).2 (.inl h)
      · exact fun h => (mentions_requestError table rateLimit_known _ _).2 (.inl h)

/-- The address does not count exactly when it mentions nothing that is tested before the kind of
the status or of the failure. -/
theorem kind_of_getDocument_iff {Document : Type} (table : CaseTable) :
    (∀ (targetURL retryAfterHeader : String) (statusCode : Nat)
        (document : Except GoError Document), 400 ≤ statusCode →
      ∃ err, getDocument targetURL (.response statusCode document) = .error err ∧
        ((defaultClassifier table (some err)).1 =
            (classifyHTTPStatus statusCode retryAfterHeader).1 ↔
          SparesStatus statusCode (Nat.toDigits 10 statusCode) ∧
            SparesStatus statusCode (table.lower targetURL).toList)) ∧
      ∀ (targetURL : String) (cause : GoError),
        ∃ err, getDocument targetURL (.failed cause : Answer Document) = .error err ∧
          ((defaultClassifier table (some err)).1 = (defaultClassifier table (some cause)).1 ↔
            (cause.asProviderError = none →
              SparesMessage (table.lower cause.error).toList (table.lower targetURL).toList)) := by
  constructor
  · intro targetURL retryAfterHeader statusCode document range
    have other : statusCode ≠ 200 := by omega
    exact ⟨statusError statusCode targetURL, if_pos other,
      kind_statusError table statusCode targetURL retryAfterHeader⟩
  · intro targetURL cause
    exact ⟨requestError targetURL cause, rfl, kind_requestError table targetURL cause⟩

section Authors

theorem kind_of_getDocument_iff_chapter_page :
    ∃ err, getDocument "https://manga.test/c/12"
        (.response 503 (.ok ()) : Answer Unit) = .error err ∧
      ((defaultClassifier .asciiOnly (some err)).1 = (classifyHTTPStatus 503 "").1 ↔
        SparesStatus 503 (Nat.toDigits 10 503) ∧
          SparesStatus 503 (CaseTable.asciiOnly.lower "https://manga.test/c/12").toList) :=
  (kind_of_getDocument_iff .asciiOnly).1 "https://manga.test/c/12" "" 503 (.ok ()) (by decide)

/-- The page of an author on a server that is down counts as a refused login. -/
theorem author_page_is_auth :
    ∃ err, getDocument "https://manga.test/author/7"
        (.response 503 (.ok ()) : Answer Unit) = .error err ∧
      (defaultClassifier .asciiOnly (some err)).1 = .auth ∧
      (classifyHTTPStatus 503 "").1 = .transient := by
  exact ⟨_, rfl, by decide, by decide⟩

end Authors

end Kiyomi.ProviderSdk
