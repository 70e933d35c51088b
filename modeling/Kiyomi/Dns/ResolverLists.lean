import Kiyomi.Dns.Entries
import Mathlib.Data.List.Forall2

namespace Kiyomi.Dns

open Go Go.Url PercentEncoding

/-! # Lists of resolver entries -/

inductive Entry
  | url (location : Location)
  | bare (host : Host) (port : Nat)

namespace Entry

/-- A bare entry is one of plain DNS. -/
def location : Entry → Location
  | .url location => location
  | .bare host port => ⟨.plain, host, some port, [], []⟩

def text : Entry → List UInt8
  | .url location => location.text
  | .bare host port => host.text ++ colon :: decimal port

def isURL : Entry → Bool
  | .url _ => true
  | .bare _ _ => false

def Valid (r : Rules) (e : Entry) : Prop := e.location.Valid r

def spec (e : Entry) : Spec := e.location.spec

end Entry

/-- `formatSpec` writes the location so that it is read again: there is no IPv6 address where
`net/url` takes every colon for that of the port, and the path does not end in two slashes. -/
def Location.Rewritten (r : Rules) (l : Location) : Prop :=
  (r.strictColons l.scheme.text = true → colon ∉ l.host.hostname) ∧
    ¬[slash, slash] <:+ l.decodedPath

def Entry.Rewritten (r : Rules) : Entry → Prop
  | .url location => location.Rewritten r
  | .bare _ _ => True

variable {r : Rules} {l : Location} {e : Entry} {s : Spec} {raw : List UInt8}
  {entries : List Entry} {parts : List (List UInt8)} {specs : List Spec}

/-! ## Entries by themselves -/

theorem bare_plain {host : Host} {port : Nat} (valid : (Entry.bare host port).Valid r) :
    ∀ c ∈ (Entry.bare host port).text,
      Visible c ∧ c ≠ question ∧ c ≠ slash ∧ c ≠ atSign ∧ c ≠ comma :=
  Location.authority_plain valid

theorem not_separator_bare {host : Host} {port : Nat} (valid : (Entry.bare host port).Valid r) :
    ¬separator <:+: (Entry.bare host port).text := by
  intro inside
  have isSlash : slash ∈ separator := by decide
  exact (bare_plain valid slash (inside.subset isSlash)).2.2.1 rfl

/-- A valid entry is read as what it specifies. -/
theorem parseURL_entry (valid : e.Valid r) : parseURL r e.text = .ok e.spec := by
  cases e with
  | url location => exact Location.parseURL_text valid
  | bare host port =>
      have isText : withScheme (Entry.bare host port).text =
          (Entry.bare host port).location.text := by
        rw [withScheme, if_neg (not_separator_bare valid), separator_eq]
        simp [Entry.text, Entry.location, Location.text, Location.authority, portText, queryText,
          bootstrapQuery, Scheme.text]
      refine parseURL_eq_ok_iff.mpr ⟨_, ?_, Location.specOf_url valid⟩
      rw [isText]
      exact Location.parse_text valid

theorem separator_text_iff (valid : e.Valid r) : separator <:+: e.text ↔ e.isURL = true := by
  cases e with
  | url location => exact iff_of_true (Location.separator_text location) rfl
  | bare host port => exact iff_of_false (not_separator_bare valid) Bool.false_ne_true

theorem text_visible (valid : e.Valid r) : ∀ c ∈ e.text, Visible c := by
  cases e with
  | bare host port => exact fun c member => (bare_plain valid c member).1
  | url location => exact Location.text_visible valid

/-! ## Writing a location again -/

theorem reproducible_iff (valid : l.Valid r) : Reproducible r l.url ↔ l.Rewritten r := by
  have isSplit : splitHostPort l.url.host = (l.host.hostname, portDigits l.port) :=
    splitHostPort_authority valid.host l.port
  have isHostname : l.url.hostname = l.host.hostname := by rw [URL.hostname, isSplit]
  have plain := hostname_plain valid.host
  have isPath : PathKept l.url ↔ ¬[slash, slash] <:+ l.decodedPath := by
    rw [PathKept]
    split
    · exact Iff.rfl
    · rename_i notHttps
      have noPath : l.path = [] := valid.path.resolve_right fun both =>
        notHttps ((Location.text_eq_https_iff l.scheme).mpr both.1)
      have empty : l.decodedPath = [] := by
        rw [Location.decodedPath, noPath]
        rfl
      rw [empty]
      exact iff_of_true (.inl empty) (by decide)
  constructor
  · intro kept
    have strict := kept.host.2.2
    rw [isHostname] at strict
    exact ⟨strict, isPath.mp kept.path⟩
  · rintro ⟨strict, path⟩
    have isHost : HostKept r l.url := by
      rw [HostKept, isHostname]
      exact ⟨not_mem_of_plain plain (by decide), not_mem_of_plain plain (by decide), strict⟩
    refine ⟨.inl (Location.text_ne_nil l.scheme), isHost, isPath.mpr path, ?_⟩
    rw [BootstrapKept, Location.bootstrapOf_url valid]
    exact fun address member c inAddress =>
      (Location.bootstrap_plain valid address member c inAddress).2

/-- The length of a path that is not the default. -/
def weight (s : Spec) : Nat := if s.path = defaultDoHPath then 0 else s.path.length

theorem weight_le (s : Spec) : weight s ≤ s.path.length := by
  rw [weight]
  split
  · exact Nat.zero_le _
  · exact Nat.le_refl _

theorem weight_congr {t : Spec} (same : s.path = t.path) : weight s = weight t := by
  rw [weight, weight, same]

theorem weight_of_last {c : UInt8} (isLast : s.path.getLast? = some c) (other : c ≠ 0x79) :
    weight s = s.path.length := by
  refine if_neg fun isDefault => ?_
  have ends : defaultDoHPath.getLast? = some 0x79 := by decide
  rw [isDefault, ends] at isLast
  exact other (Option.some.inj isLast).symm

/-- A location that is written otherwise loses a part of its path. -/
theorem weight_formatSpec (valid : l.Valid r) (again : parseURL r (formatSpec l.spec) = .ok s) :
    weight s ≤ weight l.spec ∧ (weight l.spec ≤ weight s → l.Rewritten r ∧ s = l.spec) := by
  have parsed := parsed_of_parse (Location.parse_text valid)
  have isSpec := Location.specOf_url valid
  have named : separator <:+: formatSpec l.spec :=
    (separator_formatSpec_iff isSpec parsed).mpr (.inl (Location.text_ne_nil l.scheme))
  rcases parseURL_eq_ok_iff.mp again with ⟨v, isParsed, isAgain⟩
  rw [withScheme, if_pos named, parse_formatSpec parsed isSpec] at isParsed
  split at isParsed
  · rename_i all
    cases isParsed
    rw [specOf_rereadURL all.2.1 (specOf_eq isSpec).2] at isAgain
    have isPath : s.path = specPath (rereadURL r l.url l.spec.port) := by
      rw [← Except.ok.inj isAgain]
    have kept : s.path = l.spec.path → l.Rewritten r ∧ s = l.spec := by
      intro same
      rw [isPath, ← Location.specPath_url valid] at same
      have path : PathKept l.url := specPath_written_iff.mp same
      have reproducible : Reproducible r l.url :=
        ⟨.inl (Location.text_ne_nil l.scheme), all.2.1, path, by
          rw [BootstrapKept, Location.bootstrapOf_url valid]
          exact fun address member c inAddress =>
            (Location.bootstrap_plain valid address member c inAddress).2⟩
      have round := formatSpec_of_reproducible parsed isSpec reproducible
      rw [again] at round
      exact ⟨(reproducible_iff valid).mp reproducible, Except.ok.inj round⟩
    by_cases isDoh : l.scheme = .doh
    · have isHttps : l.url.scheme = https := (Location.text_eq_https_iff l.scheme).mpr isDoh
      have written : (rereadURL r l.url l.spec.port).path = l.spec.path := by
        rw [rereadURL, writtenPath, if_pos isHttps, Location.specPath_url valid]
      have nonempty : l.spec.path ≠ [] := by
        rw [← Location.specPath_url valid]
        exact specPath_ne_nil isHttps
      rw [@specPath_https (rereadURL r l.url l.spec.port) isHttps, written] at isPath
      rcases trimSlash_cases l.spec.path with ⟨whole, _⟩ | longer
      · rw [whole, if_neg nonempty] at isPath
        exact ⟨Nat.le_of_eq (weight_congr isPath), fun _ => kept isPath⟩
      · have isWeight : weight l.spec = (trimSlash l.spec.path).length + 1 := by
          have isLast : l.spec.path.getLast? = some slash := by
            rw [longer]
            exact List.getLast?_concat
          rw [weight_of_last isLast (by decide)]
          conv_lhs => rw [longer]
          rw [List.length_append, List.length_singleton]
        have less : weight s ≤ (trimSlash l.spec.path).length := by
          split at isPath
          · rw [weight, if_pos isPath]
            exact Nat.zero_le _
          · exact isPath ▸ weight_le s
        exact ⟨by omega, fun enough => by omega⟩
    · have notHttps : ¬l.url.scheme = https := fun isHttps =>
        isDoh ((Location.text_eq_https_iff l.scheme).mp isHttps)
      have same : s.path = l.spec.path := by
        have nothing : (rereadURL r l.url l.spec.port).path = [] := by
          rw [rereadURL, writtenPath, if_neg notHttps]
        rw [isPath, specPath, if_neg fun both => notHttps both.2, nothing, Location.spec,
          if_neg isDoh]
        rfl
      exact ⟨Nat.le_of_eq (weight_congr same), fun _ => kept same⟩
  · contradiction

/-! ## Entries that are split -/

/-- The parts that are not blank, as `ParseList` reads them. -/
def trimmed (parts : List (List UInt8)) : List (List UInt8) :=
  (parts.map Bytes.trimSpace).filter (· ≠ [])

def Entry.stems (e : Entry) : List (List UInt8) := trimmed (e.text.splitOn comma)

theorem stems_eq (valid : e.Valid r) : e.stems = (e.text.splitOn comma).filter (· ≠ []) := by
  have same : (e.text.splitOn comma).map Bytes.trimSpace = e.text.splitOn comma := by
    refine (List.map_congr_left fun part isPart => ?_).trans (List.map_id _)
    exact Location.trimSpace_visible fun c member =>
      text_visible valid c ((Cuts.infix_of_mem_splitOn isPart).subset member)
  rw [Entry.stems, trimmed, same]

/-- An entry begins with a text without commas. -/
theorem exists_start (valid : e.Valid r) :
    ∃ start rest, e.text = start ++ rest ∧ start ≠ [] ∧ comma ∉ start := by
  cases e with
  | url location =>
      refine ⟨location.start, _, (Location.text_eq location).trans (List.append_assoc _ _ _), ?_,
        Location.comma_not_mem_start valid⟩
      exact List.append_ne_nil_of_left_ne_nil (Location.text_ne_nil location.scheme) _
  | bare host port =>
      exact ⟨_, [], (List.append_nil _).symm, by simp [Entry.text], fun member =>
        (bare_plain valid comma member).2.2.2.2 rfl⟩

/-- The first part is not blank. -/
theorem splitOn_text (valid : e.Valid r) :
    ∃ stem parts, e.text.splitOn comma = stem :: parts ∧ stem ≠ [] := by
  cases split : e.text.splitOn comma with
  | nil => exact absurd split (List.splitOn_ne_nil comma e.text)
  | cons stem parts =>
      refine ⟨stem, parts, rfl, ?_⟩
      rintro rfl
      rcases exists_start valid with ⟨start, rest, isText, nonempty, free⟩
      have joined : [comma].intercalate (e.text.splitOn comma) = e.text :=
        List.intercalate_splitOn comma
      rw [split, isText] at joined
      cases start with
      | nil => contradiction
      | cons c start =>
          rcases parts with _ | ⟨next, parts⟩
          · contradiction
          · rw [List.intercalate_cons_cons] at joined
            exact free ((List.cons.inj joined).1 ▸ List.mem_cons_self)

theorem stems_ne_nil (valid : e.Valid r) : e.stems ≠ [] := by
  rcases splitOn_text valid with ⟨stem, parts, split, nonempty⟩
  rw [stems_eq valid, split, List.filter_cons_of_pos (by simpa using nonempty)]
  exact List.cons_ne_nil _ _

theorem intercalate_replicate (sep : UInt8) (part : List UInt8) (k : Nat) :
    [sep].intercalate (part :: List.replicate k []) = part ++ List.replicate k sep := by
  induction k generalizing part with
  | zero => simp
  | succ k induction =>
      rw [List.replicate_succ, List.intercalate_cons_cons, induction, List.replicate_succ]
      simp

/-- An entry with one part has commas at its end only. -/
theorem text_of_single {stem : List UInt8} (valid : e.Valid r) (single : e.stems = [stem]) :
    ∃ k, e.text = stem ++ List.replicate k comma ∧ comma ∉ stem := by
  rcases splitOn_text valid with ⟨first, parts, split, nonempty⟩
  rw [stems_eq valid, split, List.filter_cons_of_pos (by simpa using nonempty)] at single
  rcases List.cons.inj single with ⟨rfl, blank⟩
  have empty : ∀ part ∈ parts, part = [] := by
    intro part member
    by_contra other
    have kept : part ∈ parts.filter (· ≠ []) := List.mem_filter.mpr ⟨member, by simpa using other⟩
    rw [blank] at kept
    contradiction
  refine ⟨parts.length, ?_, Cuts.not_mem_of_mem_splitOn (split ▸ List.mem_cons_self)⟩
  rw [← intercalate_replicate, ← List.eq_replicate_of_mem empty, ← split,
    List.intercalate_splitOn]

/-- A query with addresses does not end in a comma. -/
theorem bootstrap_of_last (valid : l.Valid r) (isLast : l.text.getLast? = some comma) :
    l.bootstrap = [] := by
  by_contra nonempty
  rcases List.eq_nil_or_concat l.bootstrap with empty | ⟨others, last, shape⟩
  · exact nonempty empty
  · rw [List.concat_eq_append] at shape
    have member : last ∈ l.bootstrap := by
      rw [shape]
      exact List.mem_append_right _ List.mem_cons_self
    have ending : ∃ front, l.text = front ++ last := by
      rw [Location.text_eq, bootstrapQuery, if_pos nonempty, queryText, if_neg (by simp), shape]
      by_cases alone : others = []
      · refine ⟨l.start ++ l.path ++ question :: (bootstrapKey ++ [equalSign]), ?_⟩
        rw [alone]
        simp
      · refine ⟨l.start ++ l.path ++ question :: (bootstrapKey ++
          equalSign :: ([comma].intercalate others ++ [comma])), ?_⟩
        rw [Cuts.intercalate_concat comma alone]
        simp
    rcases ending with ⟨front, isText⟩
    have lastNonempty := (valid.bootstrap last member).1
    rw [isText, List.getLast?_append_of_ne_nil _ lastNonempty] at isLast
    exact (Location.bootstrap_plain valid last member comma (List.mem_of_getLast? isLast)).1.2.2.2.2.1
      rfl

/-- The location without the end of its path. -/
def Location.withPath (l : Location) (path : List UInt8) : Location := { l with path := path }

/-- A location is one of less weight without the commas at the end of its path. -/
theorem weight_withPath {start : List UInt8} {k : Nat} (valid : l.Valid r)
    (isPath : l.path = start ++ List.replicate (k + 1) comma) :
    (l.withPath start).Valid r ∧ weight (l.withPath start).spec < weight l.spec := by
  have nonempty : l.path ≠ [] := by
    rw [isPath]
    exact List.append_ne_nil_of_right_ne_nil _ (List.cons_ne_nil _ _)
  rcases valid.path.resolve_left nonempty with ⟨isDoh, rooted⟩
  rcases Option.isSome_iff_exists.mp valid.pathEscapes with ⟨decoded, isDecoded⟩
  have wholeDecoded := isDecoded
  have plain : ∀ c ∈ List.replicate (k + 1) comma,
      isHex c = false ∧ c ≠ percent ∧ (policy .path).read c = some c := by
    intro c member
    rw [List.eq_of_mem_replicate member]
    decide
  rw [isPath, unescape] at isDecoded
  rcases Policy.decode_of_append plain isDecoded with ⟨before, isBefore, rfl⟩
  have isStart : unescape .path start = some before := isBefore
  constructor
  · refine ⟨valid.host, valid.port, ?_, ?_, ?_, valid.bootstrap⟩
    · cases start with
      | nil => exact .inl rfl
      | cons c start =>
          rw [isPath] at rooted
          exact .inr ⟨isDoh, rooted⟩
    · have bytes := valid.pathBytes
      rw [isPath, List.all_append, Bool.and_eq_true] at bytes
      exact bytes.1
    · rw [Location.withPath, isStart]
      rfl
  · have isWhole : l.decodedPath = before ++ List.replicate (k + 1) comma := by
      rw [Location.decodedPath, wholeDecoded]
      rfl
    have isLast : l.decodedPath.getLast? = some comma := by
      rw [isWhole, List.replicate_succ', ← List.append_assoc, List.getLast?_concat]
    have kept : trimSlash l.decodedPath = l.decodedPath :=
      trimSlash_of_other (by rw [isLast]; decide)
    have specPath : l.spec.path = l.decodedPath := by
      rw [Location.spec, if_pos isDoh, kept]
      exact if_neg fun empty => by rw [empty] at isLast; contradiction
    have large : weight l.spec = before.length + (k + 1) := by
      rw [weight_of_last (specPath ▸ isLast) (by decide), specPath, isWhole, List.length_append,
        List.length_replicate]
    have small : weight (l.withPath start).spec ≤ before.length := by
      have isDecodedStart : (l.withPath start).decodedPath = before := by
        rw [Location.decodedPath, Location.withPath, isStart]
        rfl
      have shorter : (trimSlash before).length ≤ before.length := by
        rcases trimSlash_cases before with ⟨whole, _⟩ | longer
        · rw [whole]
        · conv_rhs => rw [longer]
          rw [List.length_append]
          exact Nat.le_add_right _ _
      have cut : (l.withPath start).spec.path =
          if trimSlash before = [] then defaultDoHPath else trimSlash before := by
        rw [Location.spec, isDecodedStart]
        exact if_pos isDoh
      split at cut
      · rw [weight, if_pos cut]
        exact Nat.zero_le _
      · exact (weight_le _).trans (cut ▸ shorter)
    omega

/-- An entry with one part is read as one of no more weight, and of less where it has commas. -/
theorem entry_of_single {stem : List UInt8} (valid : e.Valid r) (single : e.stems = [stem]) :
    ∃ read : Entry, read.Valid r ∧ read.text = stem ∧ read.isURL = e.isURL ∧
      weight read.spec ≤ weight e.spec ∧
        (weight e.spec ≤ weight read.spec → read = e ∧ comma ∉ e.text) := by
  rcases text_of_single valid single with ⟨k, isText, free⟩
  cases k with
  | zero =>
      rw [List.replicate_zero, List.append_nil] at isText
      exact ⟨e, valid, isText, rfl, Nat.le_refl _, fun _ => ⟨rfl, isText ▸ free⟩⟩
  | succ k =>
      have isLast : e.text.getLast? = some comma := by
        rw [isText, List.replicate_succ', ← List.append_assoc, List.getLast?_concat]
      cases e with
      | bare host port =>
          exact absurd rfl (bare_plain valid comma (List.mem_of_getLast? isLast)).2.2.2.2
      | url location =>
          have noQuery : location.bootstrap = [] := bootstrap_of_last valid isLast
          have noComma := Location.comma_not_mem_start valid
          have whole : location.start ++ location.path = stem ++ List.replicate (k + 1) comma := by
            rw [← isText, Entry.text, Location.text_eq, noQuery]
            exact (List.append_nil _).symm
          rcases List.append_eq_append_iff.mp whole with
            ⟨path, rfl, isPath⟩ | ⟨rest, isStart, commas⟩
          · rcases weight_withPath valid isPath with ⟨isValid, less⟩
            refine ⟨.url (location.withPath path), isValid, ?_, rfl, Nat.le_of_lt less,
              fun enough => absurd less (Nat.not_lt.mpr enough)⟩
            rw [Entry.text, Location.text_eq, Location.withPath, noQuery]
            exact List.append_nil _
          · -- The commas would begin in front of the path.
            cases rest with
            | nil =>
                rw [List.nil_append] at commas
                rcases valid.path with empty | ⟨_, rooted⟩
                · rw [Entry.location, ← commas] at empty
                  contradiction
                · rw [Entry.location, ← commas] at rooted
                  exact absurd (Option.some.inj rooted) (by decide)
            | cons c rest =>
                have isComma : c = comma := by
                  refine List.eq_of_mem_replicate (n := k + 1) ?_
                  rw [commas]
                  exact List.mem_cons_self
                rw [Entry.location, isStart, isComma] at noComma
                exact absurd (List.mem_append_right _ List.mem_cons_self) noComma

/-! ## Lists that are dialled -/

section Lists

variable {α : Type u} {β : Type v} {γ : Type w} {ε : Type x} {xs : List α} {ys : List β}

theorem forall₂_of_mapM {f : α → Except ε β} (mapped : xs.mapM f = .ok ys) :
    List.Forall₂ (fun a b => f a = .ok b) xs ys := by
  induction xs generalizing ys with
  | nil =>
      cases mapped
      exact .nil
  | cons a xs induction =>
      rw [List.mapM_cons] at mapped
      cases first : f a with
      | error e =>
          rw [first] at mapped
          contradiction
      | ok b =>
          rw [first] at mapped
          cases rest : xs.mapM f with
          | error e =>
              rw [rest] at mapped
              contradiction
          | ok others =>
              rw [rest] at mapped
              cases mapped
              exact .cons first (induction rest)

theorem mapM_of_forall {f : β → Except ε γ} {g : α → β} {h : α → γ}
    (each : ∀ a ∈ xs, f (g a) = .ok (h a)) : (xs.map g).mapM f = .ok (xs.map h) := by
  induction xs with
  | nil => rfl
  | cons a xs induction =>
      rcases List.forall_mem_cons.mp each with ⟨first, rest⟩
      rw [List.map_cons, List.mapM_cons, first, induction rest]
      rfl

theorem forall₂_trans {R : α → β → Prop} {S : β → γ → Prop} {zs : List γ}
    (first : List.Forall₂ R xs ys) (second : List.Forall₂ S ys zs) :
    List.Forall₂ (fun a c => ∃ b, R a b ∧ S b c) xs zs := by
  induction first generalizing zs with
  | nil =>
      cases second
      exact .nil
  | cons related _ induction =>
      rcases second with _ | ⟨next, rest⟩
      exact .cons ⟨_, related, next⟩ (induction rest)

/-- Where no pair adds to a sum, the sums are the same only if those of every pair are. -/
theorem forall₂_of_sum {f : α → Nat} {g : β → Nat} {Q : α → β → Prop}
    (each : List.Forall₂ (fun a b => g b ≤ f a ∧ (f a ≤ g b → Q a b)) xs ys) :
    (ys.map g).sum ≤ (xs.map f).sum ∧
      ((xs.map f).sum ≤ (ys.map g).sum → List.Forall₂ Q xs ys) := by
  induction each with
  | nil => exact ⟨Nat.le_refl _, fun _ => .nil⟩
  | cons related _ induction =>
      rcases related with ⟨less, equal⟩
      rcases induction with ⟨lessLater, equalLater⟩
      simp only [List.map_cons, List.sum_cons]
      exact ⟨by omega, fun enough => .cons (equal (by omega)) (equalLater (by omega))⟩

theorem length_flatMap_of_ne_nil {f : α → List β} (each : ∀ a ∈ xs, f a ≠ []) :
    xs.length ≤ (xs.flatMap f).length ∧
      ((xs.flatMap f).length ≤ xs.length → ∀ a ∈ xs, (f a).length = 1) := by
  induction xs with
  | nil => exact ⟨Nat.le_refl _, fun _ a member => absurd member List.not_mem_nil⟩
  | cons a xs induction =>
      rcases List.forall_mem_cons.mp each with ⟨first, rest⟩
      rcases induction rest with ⟨less, equal⟩
      have positive := List.length_pos_of_ne_nil first
      rw [List.flatMap_cons, List.length_append, List.length_cons]
      exact ⟨by omega, fun few => List.forall_mem_cons.mpr ⟨by omega, equal (by omega)⟩⟩

end Lists

def isURLText (part : List UInt8) : Bool := separator <:+: part

theorem trimmed_cons (part : List UInt8) (parts : List (List UInt8)) :
    trimmed (part :: parts) =
      if Bytes.trimSpace part = [] then trimmed parts
      else Bytes.trimSpace part :: trimmed parts := by
  rw [trimmed, List.map_cons, List.filter_cons]
  simp [trimmed]

/-- The URL entries are parsed, and the other ones are kept. -/
theorem foldlM_parsePart (lists : List Spec × List (List UInt8)) (parts : List (List UInt8)) :
    parts.foldlM (parsePart r) lists =
      (((trimmed parts).filter isURLText).mapM (parseURL r)).map fun specs =>
        (lists.1 ++ specs, lists.2 ++ (trimmed parts).filter (!isURLText ·)) := by
  induction parts generalizing lists with
  | nil =>
      have same : lists = (lists.1 ++ [], lists.2 ++ []) := by
        rw [List.append_nil, List.append_nil]
      exact congrArg Except.ok same
  | cons part parts induction =>
      rw [List.foldlM_cons, trimmed_cons, parsePart]
      by_cases blank : Bytes.trimSpace part = []
      · rw [if_pos blank, if_pos blank]
        exact induction lists
      · rw [if_neg blank, if_neg blank]
        by_cases isURL : separator <:+: Bytes.trimSpace part
        · have kept : isURLText (Bytes.trimSpace part) = true := decide_eq_true isURL
          rw [if_pos isURL, List.filter_cons_of_pos kept, List.filter_cons_of_neg (by simp [kept]),
            List.mapM_cons]
          cases parseURL r (Bytes.trimSpace part) with
          | error e => rfl
          | ok spec =>
              refine (induction (lists.1 ++ [spec], lists.2)).trans ?_
              cases ((trimmed parts).filter isURLText).mapM (parseURL r) with
              | error e => rfl
              | ok specs =>
                  refine congrArg Except.ok (Prod.ext ?_ rfl)
                  exact List.append_assoc lists.1 [spec] specs
        · have kept : isURLText (Bytes.trimSpace part) = false := decide_eq_false isURL
          have dropped : (Bytes.trimSpace part :: trimmed parts).filter isURLText =
              (trimmed parts).filter isURLText := List.filter_cons_of_neg (by simp [kept])
          have bare : (Bytes.trimSpace part :: trimmed parts).filter (!isURLText ·) =
              Bytes.trimSpace part :: (trimmed parts).filter (!isURLText ·) :=
            List.filter_cons_of_pos (by simp [kept])
          rw [if_neg isURL, dropped, bare]
          refine (induction (lists.1, lists.2 ++ [Bytes.trimSpace part])).trans ?_
          cases ((trimmed parts).filter isURLText).mapM (parseURL r) with
          | error e => rfl
          | ok specs =>
              refine congrArg Except.ok (Prod.ext rfl ?_)
              exact List.append_assoc lists.2 [Bytes.trimSpace part] _

/-- A text that is dialled through what is parsed, formatted and parsed again. -/
def Reread (r : Rules) (part : List UInt8) (s : Spec) : Prop :=
  ∃ first, parseURL r part = .ok first ∧ parseURL r (formatSpec first) = .ok s

/-- The specs that are dialled are those of the URL entries and then those of the bare ones. -/
theorem dialled_cases (nonempty : raw ≠ []) (some_spec : specs ≠ [])
    (dialled : dialFuncFromURLs r (loadFromEnv r raw) = .ok specs) :
    ∃ reread bare, specs = reread ++ bare ∧
      List.Forall₂ (Reread r) ((trimmed (raw.splitOn comma)).filter isURLText) reread ∧
      List.Forall₂ (fun part s => parseURL r part = .ok s)
        ((trimmed (raw.splitOn comma)).filter (!isURLText ·)) bare := by
  have lists : parseList r raw =
      (((trimmed (raw.splitOn comma)).filter isURLText).mapM (parseURL r)).map fun specs =>
        (specs, (trimmed (raw.splitOn comma)).filter (!isURLText ·)) := by
    rw [parseList, if_neg nonempty]
    exact foldlM_parsePart ([], []) _
  cases isFirst : ((trimmed (raw.splitOn comma)).filter isURLText).mapM (parseURL r) with
  | error e =>
      rw [isFirst] at lists
      rw [loadFromEnv, lists] at dialled
      cases dialled
      contradiction
  | ok first =>
      rw [isFirst] at lists
      rw [loadFromEnv, lists, dialFuncFromURLs] at dialled
      dsimp only [Except.map] at dialled
      rw [List.mapM_append] at dialled
      cases isReread : (first.map formatSpec).mapM (parseURL r) with
      | error e =>
          rw [isReread] at dialled
          contradiction
      | ok reread =>
          rw [isReread] at dialled
          cases isBare : ((trimmed (raw.splitOn comma)).filter (!isURLText ·)).mapM (parseURL r) with
          | error e =>
              rw [isBare] at dialled
              contradiction
          | ok bare =>
              rw [isBare] at dialled
              cases dialled
              have again := List.forall₂_map_left_iff.mp (forall₂_of_mapM isReread)
              exact ⟨reread, bare, rfl, forall₂_trans (forall₂_of_mapM isFirst) again,
                forall₂_of_mapM isBare⟩

/-! ## Lists that are read as they are given -/

/-- What an entry is dialled as: a spec of no more weight, and of less where it is not its own. -/
def Kept (r : Rules) (e : Entry) (s : Spec) : Prop :=
  weight s ≤ weight e.spec ∧
    (weight e.spec ≤ weight s → (comma ∉ e.text ∧ e.Rewritten r) ∧ s = e.spec)

/-- The entry that the one part of an entry is read as. -/
def ReadAs (r : Rules) (e read : Entry) : Prop :=
  e.stems = [read.text] ∧ read.Valid r ∧ read.isURL = e.isURL ∧
    weight read.spec ≤ weight e.spec ∧
      (weight e.spec ≤ weight read.spec → read = e ∧ comma ∉ e.text)

theorem kept_of_reread {read : Entry} (isRead : ReadAs r e read) (isURL : e.isURL = true)
    (reread : Reread r read.text s) : Kept r e s := by
  rcases isRead with ⟨_, valid, sameKind, less, equal⟩
  rcases reread with ⟨first, isFirst, again⟩
  rw [parseURL_entry valid] at isFirst
  cases isFirst
  cases read with
  | bare host port =>
      rw [isURL] at sameKind
      contradiction
  | url location =>
      have written := weight_formatSpec valid again
      refine ⟨written.1.trans less, fun enough => ?_⟩
      rcases equal (enough.trans written.1) with ⟨rfl, free⟩
      rcases written.2 enough with ⟨rewritten, same⟩
      exact ⟨⟨free, rewritten⟩, same⟩

theorem kept_of_bare {read : Entry} (isRead : ReadAs r e read) (isBare : e.isURL = false)
    (parsed : parseURL r read.text = .ok s) : Kept r e s := by
  rcases isRead with ⟨_, valid, _, less, equal⟩
  rw [parseURL_entry valid] at parsed
  cases parsed
  refine ⟨less, fun enough => ?_⟩
  rcases equal enough with ⟨rfl, free⟩
  cases read with
  | url location => contradiction
  | bare host port => exact ⟨⟨free, trivial⟩, rfl⟩

theorem isURLText_text (valid : e.Valid r) : isURLText e.text = e.isURL := by
  exact Bool.eq_iff_iff.mpr (decide_eq_true_iff.trans (separator_text_iff valid))

/-- The parts of a list of entries, where there are no more of them than entries. -/
theorem exists_read (valid : ∀ e ∈ entries, e.Valid r)
    (few : (entries.flatMap Entry.stems).length ≤ entries.length) :
    ∃ read : Entry → Entry, (∀ e ∈ entries, ReadAs r e (read e)) ∧
      entries.flatMap Entry.stems = entries.map fun e => (read e).text := by
  have ones := (length_flatMap_of_ne_nil fun e member => stems_ne_nil (valid e member)).2 few
  have each : ∀ e ∈ entries, ∃ read, ReadAs r e read := by
    intro e member
    rcases List.length_eq_one_iff.mp (ones e member) with ⟨stem, single⟩
    rcases entry_of_single (valid e member) single with ⟨read, isValid, rfl, rest⟩
    exact ⟨read, single, isValid, rest⟩
  have some_entry : Nonempty Entry := ⟨.bare (.name []) 0⟩
  choose! read isRead using each
  refine ⟨read, isRead, ?_⟩
  rw [← List.flatMap_singleton' (entries.map fun e => (read e).text), List.flatMap_map]
  exact List.flatMap_congr fun e member => (isRead e member).1

/-- The value of the variable for a list of entries. -/
def joined (entries : List Entry) : List UInt8 := [comma].intercalate (entries.map Entry.text)

/-- The entries with those behind the URL entries that are none. -/
def bareLast (entries : List Entry) : List Entry :=
  entries.filter Entry.isURL ++ entries.filter (!Entry.isURL ·)

theorem perm_bareLast (entries : List Entry) : (bareLast entries).Perm entries :=
  List.filter_append_perm _ _

theorem joined_ne_nil (valid : ∀ e ∈ entries, e.Valid r) (nonempty : entries ≠ []) :
    joined entries ≠ [] := by
  rcases List.exists_mem_of_ne_nil entries nonempty with ⟨e, member⟩
  rcases exists_start (valid e member) with ⟨start, rest, isText, someStart, _⟩
  intro empty
  have inside : e.text <:+: joined entries := Cuts.infix_intercalate (List.mem_map_of_mem member)
  rw [empty, List.infix_nil, isText] at inside
  exact someStart (List.append_eq_nil_iff.mp inside).1

theorem trimmed_joined (nonempty : entries ≠ []) :
    trimmed ((joined entries).splitOn comma) = entries.flatMap Entry.stems := by
  rw [joined, Cuts.splitOn_join comma (by simpa using nonempty), trimmed, List.flatMap_map,
    List.map_flatMap, List.filter_flatMap]
  rfl

/-- What is dialled for a list of entries is no more than their specs. -/
theorem forall₂_kept (valid : ∀ e ∈ entries, e.Valid r) (nonempty : entries ≠ [])
    (dialled : dialFuncFromURLs r (loadFromEnv r (joined entries)) = .ok specs)
    (same_number : specs.length = entries.length) :
    List.Forall₂ (Kept r) (bareLast entries) specs := by
  have some_spec : specs ≠ [] := by
    rintro rfl
    exact nonempty (List.length_eq_zero_iff.mp same_number.symm)
  rcases dialled_cases (joined_ne_nil valid nonempty) some_spec dialled with
    ⟨reread, bare, rfl, rereads, bares⟩
  rw [trimmed_joined nonempty] at rereads bares
  have few : (entries.flatMap Entry.stems).length ≤ entries.length := by
    rw [← same_number, List.length_append, ← rereads.length_eq, ← bares.length_eq,
      ← List.length_eq_length_filter_add]
  rcases exists_read valid few with ⟨read, isRead, stems⟩
  have kind : ∀ e ∈ entries, isURLText (read e).text = e.isURL := by
    intro e member
    rw [isURLText_text (isRead e member).2.1, (isRead e member).2.2.1]
  have urls : (entries.flatMap Entry.stems).filter isURLText =
      (entries.filter Entry.isURL).map fun e => (read e).text := by
    rw [stems, List.filter_map]
    exact congrArg _ (List.filter_congr kind)
  have others : (entries.flatMap Entry.stems).filter (!isURLText ·) =
      (entries.filter (!Entry.isURL ·)).map fun e => (read e).text := by
    rw [stems, List.filter_map]
    exact congrArg _ (List.filter_congr fun e member => congrArg (!·) (kind e member))
  rw [urls, List.forall₂_map_left_iff] at rereads
  rw [others, List.forall₂_map_left_iff] at bares
  refine List.rel_append ?_ ?_
  · have inside : ∀ e ∈ entries.filter Entry.isURL, e ∈ entries ∧ e.isURL = true :=
      fun e member => List.mem_filter.mp member
    exact ((List.forall₂_and_left _ _).mpr ⟨inside, rereads⟩).imp fun e s both =>
      kept_of_reread (isRead e both.1.1) both.1.2 both.2
  · have inside : ∀ e ∈ entries.filter (!Entry.isURL ·), e ∈ entries ∧ e.isURL = false :=
      fun e member => (List.mem_filter.mp member).imp_right fun other => by simpa using other
    exact ((List.forall₂_and_left _ _).mpr ⟨inside, bares⟩).imp fun e s both =>
      kept_of_bare (isRead e both.1.1) both.1.2 both.2

theorem of_dialled (valid : ∀ e ∈ entries, e.Valid r) (nonempty : entries ≠ [])
    (dialled : dialFuncFromURLs r (loadFromEnv r (joined entries)) = .ok (entries.map Entry.spec)) :
    (∀ e ∈ entries, comma ∉ e.text ∧ e.Rewritten r) ∧
      (bareLast entries).map Entry.spec = entries.map Entry.spec := by
  have kept := forall₂_kept valid nonempty dialled (List.length_map _)
  have sums : ((bareLast entries).map fun e => weight e.spec).sum =
      ((entries.map Entry.spec).map weight).sum := by
    rw [List.map_map]
    exact ((perm_bareLast entries).map _).sum_nat
  have equal := (forall₂_of_sum kept).2 (Nat.le_of_eq sums)
  rcases (List.forall₂_and_left _ _).mp equal with ⟨plain, same⟩
  refine ⟨fun e member => plain e ((perm_bareLast entries).mem_iff.mpr member), ?_⟩
  have specs : List.Forall₂ (· = ·) ((bareLast entries).map Entry.spec) (entries.map Entry.spec) :=
    List.forall₂_map_left_iff.mpr (same.imp fun _ _ => Eq.symm)
  rwa [List.forall₂_eq_eq_eq] at specs

theorem dialled_of (valid : ∀ e ∈ entries, e.Valid r) (nonempty : entries ≠ [])
    (free : ∀ e ∈ entries, comma ∉ e.text) (rewritten : ∀ e ∈ entries, e.Rewritten r) :
    dialFuncFromURLs r (loadFromEnv r (joined entries)) = .ok ((bareLast entries).map Entry.spec) := by
  have split : (joined entries).splitOn comma = entries.map Entry.text :=
    List.splitOn_intercalate comma (List.forall_mem_map.mpr free) (by simpa using nonempty)
  have stems : trimmed (entries.map Entry.text) = entries.map Entry.text := by
    have single : ∀ e ∈ entries, e.stems = [e.text] := by
      intro e member
      rcases exists_start (valid e member) with ⟨start, rest, isText, someStart, _⟩
      have someText : e.text ≠ [] := by
        rw [isText]
        exact List.append_ne_nil_of_left_ne_nil someStart rest
      rw [stems_eq (valid e member), List.splitOn_eq_singleton (free e member)]
      simpa using someText
    have each : entries.flatMap Entry.stems = entries.flatMap fun e => [e.text] :=
      List.flatMap_congr single
    conv_lhs => rw [← split, trimmed_joined nonempty, each]
    exact List.map_eq_flatMap.symm
  have kind : ∀ e ∈ entries, isURLText e.text = e.isURL := fun e member =>
    isURLText_text (valid e member)
  have urls : (entries.map Entry.text).filter isURLText =
      (entries.filter Entry.isURL).map Entry.text := by
    rw [List.filter_map]
    exact congrArg _ (List.filter_congr kind)
  have others : (entries.map Entry.text).filter (!isURLText ·) =
      (entries.filter (!Entry.isURL ·)).map Entry.text := by
    rw [List.filter_map]
    exact congrArg _ (List.filter_congr fun e member => congrArg (!·) (kind e member))
  have parsedURLs : ((entries.filter Entry.isURL).map Entry.text).mapM (parseURL r) =
      .ok ((entries.filter Entry.isURL).map Entry.spec) :=
    mapM_of_forall fun e member => parseURL_entry (valid e (List.mem_of_mem_filter member))
  have parsedOthers : ((entries.filter (!Entry.isURL ·)).map Entry.text).mapM (parseURL r) =
      .ok ((entries.filter (!Entry.isURL ·)).map Entry.spec) :=
    mapM_of_forall fun e member => parseURL_entry (valid e (List.mem_of_mem_filter member))
  have lists : parseList r (joined entries) = .ok ((entries.filter Entry.isURL).map Entry.spec,
      (entries.filter (!Entry.isURL ·)).map Entry.text) := by
    rw [parseList, if_neg (joined_ne_nil valid nonempty), split, foldlM_parsePart, stems, urls,
      others, parsedURLs]
    rfl
  rw [dialFuncFromURLs_loadFromEnv lists, parsedOthers, bareLast, List.map_append]
  · rfl
  · intro part member isURL u isParsed
    rw [split] at member
    rcases List.mem_map.mp member with ⟨e, isEntry, rfl⟩
    have isValid := valid e isEntry
    have same : Bytes.trimSpace e.text = e.text :=
      Location.trimSpace_visible (text_visible isValid)
    rw [same] at isURL isParsed
    cases e with
    | bare host port => exact absurd isURL (not_separator_bare isValid)
    | url location =>
        have isText : withScheme (Entry.url location).text = location.text := if_pos isURL
        rw [isText] at isParsed
        cases (Location.parse_text isValid).symm.trans isParsed
        exact (reproducible_iff isValid).mpr (rewritten _ isEntry)

/-- A list of valid entries is read as it is given exactly where no entry has a comma, the URL
entries are written again as they are, and the bare entries may stand last. -/
theorem dialFuncFromURLs_joined_iff (valid : ∀ e ∈ entries, e.Valid r) :
    dialFuncFromURLs r (loadFromEnv r (joined entries)) = .ok (entries.map Entry.spec) ↔
      (∀ e ∈ entries, comma ∉ e.text) ∧ (∀ e ∈ entries, e.Rewritten r) ∧
        (bareLast entries).map Entry.spec = entries.map Entry.spec := by
  by_cases nonempty : entries = []
  · subst nonempty
    exact iff_of_true rfl ⟨by simp, by simp, rfl⟩
  · constructor
    · intro dialled
      rcases of_dialled valid nonempty dialled with ⟨each, last⟩
      exact ⟨fun e member => (each e member).1, fun e member => (each e member).2, last⟩
    · rintro ⟨free, rewritten, last⟩
      rw [dialled_of valid nonempty free rewritten, last]

/-- The DNS-over-TLS entry of a name with bootstrap addresses. -/
def dotEntry (name : List UInt8) (bootstrap : List (List UInt8)) : Entry :=
  .url ⟨.dot, .name name, none, [], bootstrap⟩

theorem dialFuncFromURLs_joined_one :
    dialFuncFromURLs standardRules (loadFromEnv standardRules
        (utf8 "tls://one.one.one.one?bootstrap=1.1.1.1,1.0.0.1:53")) =
      .ok [⟨tls, utf8 "one.one.one.one", 853, [], [utf8 "1.1.1.1"]⟩,
        ⟨dns, utf8 "1.0.0.1", 53, [], []⟩] := by
  have isText : joined [dotEntry (utf8 "one.one.one.one") [utf8 "1.1.1.1"],
      .bare (.name (utf8 "1.0.0.1")) 53] =
        utf8 "tls://one.one.one.one?bootstrap=1.1.1.1,1.0.0.1:53" := by decide +kernel
  have isURL : (dotEntry (utf8 "one.one.one.one") [utf8 "1.1.1.1"]).Valid standardRules :=
    ⟨.name (by decide) (by decide), fun _ isPort => by contradiction, .inl rfl, rfl, by decide,
      by decide⟩
  have isBare : (Entry.bare (.name (utf8 "1.0.0.1")) 53).Valid standardRules :=
    ⟨.name (by decide) (by decide), fun _ isPort => by cases isPort; decide, .inl rfl, rfl,
      by decide, by decide⟩
  rw [← isText]
  refine (dialFuncFromURLs_joined_iff (List.forall_mem_cons.mpr
    ⟨isURL, List.forall_mem_singleton.mpr isBare⟩)).mpr ⟨by decide +kernel, ?_, rfl⟩
  exact List.forall_mem_cons.mpr ⟨⟨fun _ => by decide, by decide⟩,
    List.forall_mem_singleton.mpr trivial⟩

/-- The second of two bootstrap addresses is read as an entry of its own. -/
theorem bootstrap_list_is_split : ¬∀ entries : List Entry,
    (∀ e ∈ entries, e.Valid standardRules) →
      dialFuncFromURLs standardRules (loadFromEnv standardRules (joined entries)) =
        .ok (entries.map Entry.spec) := by
  intro read
  have valid : (dotEntry (utf8 "one.one.one.one") [utf8 "1.1.1.1", utf8 "1.0.0.1"]).Valid
      standardRules :=
    ⟨.name (by decide) (by decide), fun _ isPort => by contradiction, .inl rfl, rfl, by decide,
      by decide⟩
  have split : dialFuncFromURLs standardRules (loadFromEnv standardRules
      (joined [dotEntry (utf8 "one.one.one.one") [utf8 "1.1.1.1", utf8 "1.0.0.1"]])) =
        .ok [⟨tls, utf8 "one.one.one.one", 853, [], [utf8 "1.1.1.1"]⟩,
          ⟨dns, utf8 "1.0.0.1", 53, [], []⟩] := by decide +kernel
  have whole := read _ (List.forall_mem_singleton.mpr valid)
  rw [split] at whole
  exact absurd (congrArg List.length (Except.ok.inj whole)) (by decide)

end Kiyomi.Dns
