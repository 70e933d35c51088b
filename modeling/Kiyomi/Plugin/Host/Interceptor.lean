import Kiyomi.Foundation.Lines
import Kiyomi.Go.Bytes
import Kiyomi.Go.Map
import Kiyomi.Go.Time
import Kiyomi.Plugin.Host.RingBuffer
import Mathlib.Data.List.Forall2

namespace Kiyomi.Plugin.Host

open Go

/-! # The log interceptor -/

/-- How a log line is read as JSON, with values of type `V`. -/
structure LogDecoder (V : Type) where
  /-- `json.Unmarshal` into a map; `none` for an error and for the map that is nil. -/
  unmarshal : List UInt8 → Option (Map String V)
  /-- The assertion that a value is a string. -/
  text : V → Option String
  toUpper : String → String

structure PluginLogEntry (V : Type) where
  timestamp : Time
  level : String
  message : List UInt8
  fields : Map String V
  raw : List UInt8

instance (V : Type) : Inhabited (PluginLogEntry V) := ⟨⟨Time.zero, "", [], ∅, []⟩⟩

/-- The entry that `processLine` makes of a line, at the time `now`. The layouts
`time.RFC3339Nano` and `time.RFC3339` parse the same texts. -/
def LogDecoder.entry {V : Type} (d : LogDecoder V) (now : Time) (trimmed : List UInt8) :
    PluginLogEntry V :=
  match d.unmarshal trimmed with
  | some rawMap =>
      let string (key : String) : Option String := (rawMap.lookup key).bind d.text
      let timestamp := ((string "time").bind parse).getD Time.zero
      let levelStr := (string "level").getD ""
      { timestamp := if timestamp.isZero then now else timestamp
        level := if levelStr ≠ "" then d.toUpper levelStr else "INFO"
        message := (((string "msg").or (string "message")).getD "").toUTF8.toList
        fields := (((rawMap.erase "time").erase "level").erase "msg").erase "message"
        raw := trimmed }
  | none => { timestamp := now, level := "INFO", message := trimmed, fields := ∅, raw := trimmed }

def newline : UInt8 := 0x0A

structure LogInterceptor (V : Type) where
  lineBuf : List UInt8
  buffer : RingBuffer (PluginLogEntry V)
  /-- How many lines it has recorded. -/
  recorded : Nat

namespace LogInterceptor

variable {V : Type}

/-- `NewLogInterceptor` with a new buffer. -/
def new (capacity : Int) : LogInterceptor V := ⟨[], .new capacity, 0⟩

section Clock

-- The clock shows `clock n` when the line after the first `n` is recorded.
variable (d : LogDecoder V) (clock : Nat → Time)

def processLine (i : LogInterceptor V) (line : List UInt8) : LogInterceptor V :=
  let trimmed := Bytes.trimSpace line
  if trimmed = [] then i
  else
    { i with
      buffer := i.buffer.push (d.entry (clock i.recorded) trimmed)
      recorded := i.recorded + 1 }

/-- The body of the loop of `Write`. -/
def writeByte (i : LogInterceptor V) (b : UInt8) : LogInterceptor V :=
  if b = newline then
    processLine d clock { i with lineBuf := [] } (Bytes.trimRight 0x0D i.lineBuf)
  else { i with lineBuf := i.lineBuf ++ [b] }

def write (i : LogInterceptor V) (p : List UInt8) : LogInterceptor V :=
  p.foldl (writeByte d clock) i

def flush (i : LogInterceptor V) : LogInterceptor V :=
  if i.lineBuf.length > 0 then
    processLine d clock { i with lineBuf := [] } (Bytes.trimRight 0x0D i.lineBuf)
  else i

/-- A `Write` for each chunk. -/
def writeAll (i : LogInterceptor V) (chunks : List (List UInt8)) : LogInterceptor V :=
  chunks.foldl (write d clock) i

/-- The entries of trimmed lines, from the line after the first `n` on. -/
def entriesFrom : Nat → List (List UInt8) → List (PluginLogEntry V)
  | _, [] => []
  | n, line :: lines => d.entry (clock n) line :: entriesFrom (n + 1) lines

end Clock

/-- The lines that are recorded, as they are recorded. -/
def trimmedLines (lines : List (List UInt8)) : List (List UInt8) :=
  (lines.map Bytes.trimSpace).filter (· ≠ [])

/-! ## Lines -/

variable {d : LogDecoder V} {clock : Nat → Time} {i : LogInterceptor V}

theorem entriesFrom_append (n : Nat) (lines more : List (List UInt8)) :
    entriesFrom d clock n (lines ++ more) =
      entriesFrom d clock n lines ++ entriesFrom d clock (n + lines.length) more := by
  induction lines generalizing n with
  | nil => rfl
  | cons line lines induction =>
      rw [List.cons_append, entriesFrom, induction, entriesFrom, List.cons_append,
        List.length_cons, Nat.add_assoc, Nat.add_comm 1]

/-- An interceptor that has recorded trimmed lines. -/
def recording (d : LogDecoder V) (clock : Nat → Time) (i : LogInterceptor V)
    (lines : List (List UInt8)) : LogInterceptor V where
  lineBuf := i.lineBuf
  buffer := (entriesFrom d clock i.recorded lines).foldl RingBuffer.push i.buffer
  recorded := i.recorded + lines.length

theorem recording_append (lines more : List (List UInt8)) :
    recording d clock (recording d clock i lines) more = recording d clock i (lines ++ more) := by
  simp only [recording, entriesFrom_append, List.foldl_append, List.length_append, Nat.add_assoc]

theorem trimmedLines_append (lines more : List (List UInt8)) :
    trimmedLines (lines ++ more) = trimmedLines lines ++ trimmedLines more := by
  rw [trimmedLines, List.map_append, List.filter_append, trimmedLines, trimmedLines]

theorem processLine_eq (line : List UInt8) :
    processLine d clock i (Bytes.trimRight 0x0D line) =
      recording d clock i (trimmedLines [line]) := by
  rw [processLine, Bytes.trimSpace_trimRight]
  by_cases blank : Bytes.trimSpace line = []
  · simp [trimmedLines, blank, recording, entriesFrom]
  · simp [trimmedLines, blank, recording, entriesFrom]

/-- What comes in continues the line that has not ended. -/
theorem write_eq (free : newline ∉ i.lineBuf) (p : List UInt8) :
    write d clock i p =
      { recording d clock i (trimmedLines (Lines.complete newline (i.lineBuf ++ p))) with
        lineBuf := Lines.rest newline (i.lineBuf ++ p) } := by
  induction p generalizing i with
  | nil =>
      rw [List.append_nil, (Lines.lines_of_not_mem free).1, (Lines.lines_of_not_mem free).2]
      rfl
  | cons b p induction =>
      rw [write, List.foldl_cons, writeByte]
      split
      · rename_i ends
        subst ends
        rw [processLine_eq]
        refine (@induction (recording d clock { i with lineBuf := [] }
          (trimmedLines [i.lineBuf])) List.not_mem_nil).trans ?_
        rw [recording_append, ← trimmedLines_append, Lines.complete_line free, Lines.rest_line free]
        rfl
      · rename_i other
        have stays : newline ∉ i.lineBuf ++ [b] := by
          rw [List.mem_append, List.mem_singleton, not_or]
          exact ⟨free, Ne.symm other⟩
        refine (@induction { i with lineBuf := i.lineBuf ++ [b] } stays).trans ?_
        rw [List.append_assoc, List.singleton_append]
        rfl

theorem writeAll_eq (i : LogInterceptor V) (chunks : List (List UInt8)) :
    writeAll d clock i chunks = write d clock i chunks.flatten :=
  List.foldl_flatten.symm

theorem flush_eq : flush d clock i =
    { recording d clock i (trimmedLines [i.lineBuf]) with lineBuf := [] } := by
  unfold flush
  split
  · rw [processLine_eq]
    rfl
  · rename_i empty
    have none_left : i.lineBuf = [] := List.length_eq_zero_iff.mp (by omega)
    cases i
    cases none_left
    rfl

/-- The entries of everything that has been written to a new interceptor. -/
theorem entries_flush {capacity : Nat} (positive : 0 < capacity) (bytes : List UInt8) :
    (flush d clock (write d clock (new capacity) bytes)).buffer.entries =
      (entriesFrom d clock 0 (trimmedLines (bytes.splitOn newline))).rtake capacity := by
  rw [write_eq List.not_mem_nil, flush_eq]
  change (recording d clock (recording d clock (new capacity) _) _).buffer.entries = _
  rw [recording_append, ← trimmedLines_append]
  change RingBuffer.entries (List.foldl RingBuffer.push (RingBuffer.new capacity) _) = _
  rw [RingBuffer.entries_pushAll, RingBuffer.entries_new, RingBuffer.capacity_new positive,
    List.nil_append]
  exact congrArg (fun lines => (entriesFrom d clock 0 (trimmedLines lines)).rtake capacity)
    (Lines.complete_append_rest newline bytes)

/-! ## Chunks -/

/-- The lines of a text that have more than white space. -/
def nonBlankLines (bytes : List UInt8) : List (List UInt8) :=
  (bytes.splitOn newline).filter fun line => Bytes.trimSpace line ≠ []

/-- The entry that a line gets when nothing else is written, at some time. -/
def WrittenAlone (d : LogDecoder V) (line : List UInt8) (entry : PluginLogEntry V) : Prop :=
  ∃ clock, (write d clock (new 1) (line ++ [newline])).buffer.entries = [entry]

theorem trimmedLines_splitOn (bytes : List UInt8) :
    trimmedLines (bytes.splitOn newline) = (nonBlankLines bytes).map Bytes.trimSpace :=
  List.filter_map

theorem writtenAlone_entry {line : List UInt8} (free : newline ∉ line)
    (text : Bytes.trimSpace line ≠ []) (now : Time) :
    WrittenAlone d line (d.entry now (Bytes.trimSpace line)) := by
  refine ⟨fun _ => now, ?_⟩
  rw [write_eq List.not_mem_nil]
  change (recording d (fun _ => now) (new 1) (trimmedLines
    (Lines.complete newline (line ++ newline :: [])))).buffer.entries = _
  rw [Lines.complete_line free, (Lines.lines_of_not_mem List.not_mem_nil).1, trimmedLines,
    List.map_singleton, List.filter_singleton, decide_eq_true text, cond_true]
  rfl

theorem writtenAlone_entriesFrom {lines : List (List UInt8)}
    (alone : ∀ line ∈ lines, newline ∉ line ∧ Bytes.trimSpace line ≠ []) (n : Nat) :
    List.Forall₂ (WrittenAlone d) lines (entriesFrom d clock n (lines.map Bytes.trimSpace)) := by
  induction lines generalizing n with
  | nil => exact .nil
  | cons line lines induction =>
      rcases List.forall_mem_cons.mp alone with ⟨⟨free, text⟩, others⟩
      exact .cons (writtenAlone_entry free text _) (induction others (n + 1))

/-- However a text is cut into chunks, the buffer holds its last lines, each as when it is
written alone. -/
theorem entries_of_chunks (d : LogDecoder V) (clock : Nat → Time) {capacity : Nat}
    (positive : 0 < capacity) (chunks : List (List UInt8)) :
    List.Forall₂ (WrittenAlone d) ((nonBlankLines chunks.flatten).rtake capacity)
      (flush d clock (writeAll d clock (new capacity) chunks)).buffer.entries := by
  rw [writeAll_eq, entries_flush positive, trimmedLines_splitOn]
  have all : List.Forall₂ (WrittenAlone d) (nonBlankLines chunks.flatten)
      (entriesFrom d clock 0 ((nonBlankLines chunks.flatten).map Bytes.trimSpace)) := by
    refine writtenAlone_entriesFrom (fun line member => ?_) 0
    rcases List.mem_filter.mp member with ⟨isLine, text⟩
    exact ⟨Lines.not_mem_of_mem_splitOn isLine, of_decide_eq_true text⟩
  rw [List.rtake, List.rtake, ← all.length_eq]
  exact List.forall₂_drop _ all

/-- No line is read as JSON. -/
def plainText : LogDecoder Unit := ⟨fun _ => none, fun _ => none, id⟩

/-- `ab`, a blank line and `c`, cut in the middle, with room for one line. -/
theorem entries_of_chunks_two_lines :
    List.Forall₂ (WrittenAlone plainText) [[0x63]]
      (flush plainText (fun _ => Time.zero) (writeAll plainText (fun _ => Time.zero) (new 1)
        [[0x61], [0x62, 0x0D, 0x0A, 0x20], [0x0A, 0x63]])).buffer.entries := by
  have recorded := @entries_of_chunks _ plainText (fun _ => Time.zero) 1 (by decide)
    [[0x61], [0x62, 0x0D, 0x0A, 0x20], [0x0A, 0x63]]
  have last : (nonBlankLines [[0x61], [0x62, 0x0D, 0x0A, 0x20], [0x0A, 0x63]].flatten).rtake 1 =
      [[0x63]] := by
    decide +kernel
  rwa [last] at recorded

end LogInterceptor

end Kiyomi.Plugin.Host
