import Kiyomi.Go.Bytes
import Kiyomi.Go.Strconv

namespace Kiyomi.PluginSdk

open Go

/-! # Paths into JSON documents -/

/-- A decoded document. An object is a map: of members with one key the first counts. -/
inductive JSON
  | null
  | bool (value : Bool)
  | number (value : Rat)
  | string (text : List UInt8)
  | array (elements : List JSON)
  | object (members : List (List UInt8 × JSON))

def dot : UInt8 := 0x2E

/-! ## Tokens -/

/-- The tokens so far, and the bytes of the current one. -/
structure PathTokens where
  tokens : List (List UInt8)
  current : List UInt8
  deriving DecidableEq

namespace PathTokens

def flush (state : PathTokens) : PathTokens :=
  if state.current = [] then state else ⟨state.tokens ++ [state.current], []⟩

/-- One round of the loop of `parsePath`. -/
def read (state : PathTokens) (ch : UInt8) : PathTokens :=
  if ch = dot ∨ ch = Url.openBracket ∨ ch = Url.closeBracket then state.flush
  else ⟨state.tokens, state.current ++ [ch]⟩

end PathTokens

def tokenize (path : List UInt8) : List (List UInt8) :=
  (path.foldl PathTokens.read ⟨[], []⟩).flush.tokens

def parsePath (path : List UInt8) : List (List UInt8) :=
  if Bytes.trimSpace path = [] then [] else tokenize path

namespace PathTokens

variable {state : PathTokens} {tokens : List (List UInt8)} {current : List UInt8}

/-- Tokens that are finished stay in front. -/
def after (tokens : List (List UInt8)) (state : PathTokens) : PathTokens :=
  ⟨tokens ++ state.tokens, state.current⟩

theorem flush_after : (after tokens state).flush = after tokens state.flush := by
  rw [flush, flush, after]
  split
  · rfl
  · rw [after, List.append_assoc]

theorem read_after (ch : UInt8) : (after tokens state).read ch = after tokens (state.read ch) := by
  rw [read, read]
  split
  · exact flush_after
  · rfl

theorem foldl_read_after (path : List UInt8) :
    path.foldl read (after tokens state) = after tokens (path.foldl read state) := by
  induction path generalizing state with
  | nil => rfl
  | cons ch path induction => rw [List.foldl_cons, List.foldl_cons, read_after, induction]

theorem current_flush : state.flush.current = [] := by
  rw [flush]
  split
  · assumption
  · rfl

end PathTokens

theorem tokenize_append (p q : List UInt8) :
    tokenize (p ++ dot :: q) = tokenize p ++ tokenize q := by
  rw [tokenize, List.foldl_append, List.foldl_cons]
  generalize path : p.foldl PathTokens.read ⟨[], []⟩ = state
  have flushed : state.read dot = PathTokens.after state.flush.tokens ⟨[], []⟩ := by
    rw [PathTokens.read, if_pos (.inl rfl), PathTokens.after, List.append_nil,
      ← @PathTokens.current_flush state]
  rw [flushed, PathTokens.foldl_read_after, PathTokens.flush_after, tokenize, tokenize, path]
  rfl

theorem parsePath_append {p q : List UInt8} (first : Bytes.trimSpace p ≠ [])
    (second : Bytes.trimSpace q ≠ []) :
    parsePath (p ++ dot :: q) = parsePath p ++ parsePath q := by
  have whole : Bytes.trimSpace (p ++ dot :: q) ≠ [] :=
    Bytes.trimSpace_ne_nil (b := dot) (by decide) (by decide)
      (List.mem_append_right p List.mem_cons_self)
  rw [parsePath, parsePath, parsePath, if_neg first, if_neg second,
    if_neg whole, tokenize_append]

/-! ## Walking -/

/-- The value that the token leads to; `none` where `Get` returns without it. -/
def JSON.next (current : JSON) (token : List UInt8) : Option JSON :=
  match current with
  | .object members => some ((members.lookup token).getD .null)
  | .array elements =>
      (Strconv.atoi token).bind fun idx =>
        if idx < 0 ∨ elements.length ≤ idx then none else elements[idx.toNat]?
  | _ => none

structure JSONExtractor where
  val : JSON

/-- `Get`; an extractor that is `nil` is `none`. -/
def JSONExtractor.get (e : Option JSONExtractor) (path : List UInt8) : JSONExtractor :=
  match e with
  | none => ⟨.null⟩
  | some e =>
    match e.val with
    | .null => ⟨.null⟩
    | current => ⟨((parsePath path).foldlM JSON.next current).getD .null⟩

namespace JSONExtractor

variable {e : Option JSONExtractor} {p q : List UInt8}

/-- The value that all tokens lead to. -/
def walk (tokens : List (List UInt8)) (val : JSON) : JSON :=
  (tokens.foldlM JSON.next val).getD .null

theorem walk_null (tokens : List (List UInt8)) : walk tokens .null = .null := by
  cases tokens with
  | nil => rfl
  | cons token tokens => rfl

theorem walk_append (before after : List (List UInt8)) (val : JSON) :
    walk (before ++ after) val = walk after (walk before val) := by
  rw [walk, List.foldlM_append, walk.eq_def before]
  cases before.foldlM JSON.next val with
  | none => exact (walk_null after).symm
  | some current => rfl

theorem get_eq_walk (val : JSON) (path : List UInt8) :
    get (some ⟨val⟩) path = ⟨walk (parsePath path) val⟩ := by
  cases val with
  | null => rw [walk_null, get]
  | bool | number | string | array | object => rfl

/-- A path is followed in two parts as it is in one. -/
theorem get_append (first : Bytes.trimSpace p ≠ []) (second : Bytes.trimSpace q ≠ []) :
    get e (p ++ dot :: q) = get (some (get e p)) q := by
  cases e with
  | none => rfl
  | some e =>
      rw [get_eq_walk, get_eq_walk, parsePath_append first second, walk_append, get_eq_walk]

theorem get_append_index :
    Bytes.trimSpace (Url.utf8 "items") ≠ [] ∧ Bytes.trimSpace (Url.utf8 "[1]") ≠ [] ∧
      get (some ⟨.object [(Url.utf8 "items", .array [.null, .bool true])]⟩)
          (Url.utf8 "items" ++ dot :: Url.utf8 "[1]") =
        get (some (get (some ⟨.object [(Url.utf8 "items", .array [.null, .bool true])]⟩)
          (Url.utf8 "items"))) (Url.utf8 "[1]") :=
  ⟨by decide, by decide, get_append (by decide) (by decide)⟩

end JSONExtractor

end Kiyomi.PluginSdk
