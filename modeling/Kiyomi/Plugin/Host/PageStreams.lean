import Kiyomi.Plugin.Host.Adapter

namespace Kiyomi.Plugin

/-! # Pages streamed through a plugin

The handler of the SDK cuts what the provider's reader delivers into chunks; the reader that the
host hands out gives the chunks back through buffers of its callers. -/

inductive ReadError
  | eof
  | failed
  deriving DecidableEq

/-- The reader that a provider returns: the bytes of the calls of `Read` without an error, and of
the call that comes with one. -/
structure PageReader where
  pieces : List (List UInt8)
  last : List UInt8
  readErr : ReadError

namespace PageReader

def bytes (rc : PageReader) : List UInt8 := rc.pieces.flatten ++ rc.last

def reader (rc : PageReader) : Reader where
  reads := rc.pieces ++ [rc.last]
  fails := rc.readErr ≠ .eof

end PageReader

namespace GRPCContentProviderServer

/-- What a call of `Read` makes the handler send. -/
def send (buf : List UInt8) : List (List UInt8) := if 0 < buf.length then [buf] else []

/-- The loop of the handler: the chunks it sends, and whether it returns an error. -/
def sendChunks (last : List UInt8) (readErr : ReadError) :
    List (List UInt8) → List (List UInt8) × Bool
  | [] => (send last, readErr ≠ .eof)
  | piece :: pieces =>
      let (chunks, failed) := sendChunks last readErr pieces
      (send piece ++ chunks, failed)

theorem send_eq (buf : List UInt8) : send buf = [buf].filter (· ≠ []) := by
  cases buf with
  | nil => rfl
  | cons byte bytes => simp [send]

theorem sendChunks_eq (last : List UInt8) (readErr : ReadError) (pieces : List (List UInt8)) :
    sendChunks last readErr pieces =
      ((pieces ++ [last]).filter (· ≠ []), decide (readErr ≠ .eof)) := by
  induction pieces with
  | nil => rw [sendChunks, send_eq, List.nil_append]
  | cons piece pieces induction =>
      simp only [sendChunks, induction, send_eq, ← List.filter_append, List.cons_append,
        List.nil_append]

end GRPCContentProviderServer

namespace PageReader

/-- The stream that the host opens on a provider's reader. -/
def opened (rc : PageReader) : Host.AdapterStreamReader where
  buf := []
  chunks := (GRPCContentProviderServer.sendChunks rc.last rc.readErr rc.pieces).1
  fails := (GRPCContentProviderServer.sendChunks rc.last rc.readErr rc.pieces).2

theorem opened_content (rc : PageReader) : rc.opened.content = rc.bytes := by
  simp only [opened, Host.AdapterStreamReader.content, GRPCContentProviderServer.sendChunks_eq,
    List.nil_append, List.flatten_filter_ne_nil, List.flatten_append, List.flatten_singleton, bytes]

theorem opened_chunks (rc : PageReader) : rc.opened.chunks.length ≤ rc.pieces.length + 1 := by
  simp only [opened, GRPCContentProviderServer.sendChunks_eq]
  exact Nat.le_trans (List.length_filter_le _ _) (by simp)

end PageReader

namespace Host

namespace AdapterStreamReader

/-! ## Reading -/

/-- The error with which the stream ends. -/
def err (r : AdapterStreamReader) : ReadError := if r.fails then .failed else .eof

/-- What a call of `Read` returns. -/
def result (r : AdapterStreamReader) (size : Nat) : Except ReadError (List UInt8) :=
  match (r.read size).1 with
  | none => .error r.err
  | some bytes => .ok bytes

/-- What calls of `Read` with buffers of these sizes return. -/
def results (r : AdapterStreamReader) : List Nat → List (Except ReadError (List UInt8))
  | [] => []
  | size :: sizes => r.result size :: (r.read size).2.results sizes

theorem err_read (r : AdapterStreamReader) (size : Nat) : (r.read size).2.err = r.err := by
  rw [err, err, read_fails]

theorem ended_of_read_none {r : AdapterStreamReader} {size : Nat} (ended : (r.read size).1 = none) :
    r.buf = [] ∧ r.chunks = [] := by
  unfold read at ended
  split at ended
  · simp at ended
  · rename_i empty
    split at ended
    · exact ⟨not_not.1 empty, by assumption⟩
    · simp at ended

theorem read_ended {r : AdapterStreamReader} (no_buf : r.buf = []) (no_chunks : r.chunks = [])
    (size : Nat) : r.read size = (none, r) := by
  simp [read, no_buf, no_chunks]

theorem results_ended {r : AdapterStreamReader} (no_buf : r.buf = []) (no_chunks : r.chunks = [])
    (sizes : List Nat) : r.results sizes = List.replicate sizes.length (.error r.err) := by
  induction sizes with
  | nil => rfl
  | cons size sizes induction =>
      rw [results, result, read_ended no_buf no_chunks size, induction]
      rfl

/-- The results are blocks of bytes and then nothing but the end of the stream, which comes
after all bytes. -/
theorem results_split (r : AdapterStreamReader) (sizes : List Nat) :
    ∃ (blocks : List (List UInt8)) (ends : Nat),
      r.results sizes = blocks.map .ok ++ List.replicate ends (.error r.err) ∧
      blocks.flatten <+: r.content ∧ (0 < ends → blocks.flatten = r.content) := by
  induction sizes generalizing r with
  | nil => exact ⟨[], 0, rfl, List.nil_prefix, by simp⟩
  | cons size sizes induction =>
      cases read : (r.read size).1 with
      | none =>
          have ended := ended_of_read_none read
          refine ⟨[], sizes.length + 1, results_ended ended.1 ended.2 (size :: sizes),
            List.nil_prefix, fun _ => (content_of_read_none read).symm⟩
      | some bytes =>
          obtain ⟨blocks, ends, split, before, all⟩ := induction (r.read size).2
          have content : bytes ++ (r.read size).2.content = r.content := by
            have kept := r.read_content size
            rwa [read] at kept
          refine ⟨bytes :: blocks, ends, ?_, ?_, fun reached => ?_⟩
          · rw [results, split, result, read, err_read]
            rfl
          · rw [List.flatten_cons, ← content]
            exact (List.prefix_append_right_inj bytes).2 before
          · rw [List.flatten_cons, all reached, content]

/-- What reads with buffers that hold something use up. -/
def left (r : AdapterStreamReader) : Nat := r.content.length + r.chunks.length

theorem left_of_read {r : AdapterStreamReader} {size : Nat} {bytes : List UInt8}
    (holds : 0 < size) (read : (r.read size).1 = some bytes) : (r.read size).2.left < r.left := by
  unfold AdapterStreamReader.read at read ⊢
  split
  · rename_i filled
    have some_byte : 0 < r.buf.length := List.length_pos_iff.2 filled
    simp only [left, content, List.length_append, List.length_drop]
    omega
  · split
    · simp_all
    · rename_i chunk chunks more
      simp only [left, content, List.length_append, List.length_drop, more, List.flatten_cons,
        List.length_cons]
      omega

/-- Enough reads come to the end of the stream. -/
theorem end_of_results (r : AdapterStreamReader) (sizes : List Nat)
    (holds : ∀ size ∈ sizes, 0 < size) (enough : r.left < sizes.length) :
    .error r.err ∈ r.results sizes := by
  induction sizes generalizing r with
  | nil => simp at enough
  | cons size sizes induction =>
      cases read : (r.read size).1 with
      | none => simp [results, result, read]
      | some bytes =>
          have less := left_of_read (holds size List.mem_cons_self) read
          have later := induction (r.read size).2
            (fun other member => holds other (List.mem_cons_of_mem size member))
            (by simp only [List.length_cons] at enough; omega)
          rw [err_read] at later
          exact List.mem_cons_of_mem _ later

end AdapterStreamReader

/-! ## Closing -/

/-- A call on a stream, or a change of the number of calls by the other calls of the plugin.
Once the stream is cancelled, receiving may fail in place of the next chunk. -/
inductive StreamCall
  | read (size : Nat) (cancelled : Bool)
  | close
  | elsewhere (change : Int)

/-- A stream of a plugin's instance, and the calls that the instance counts as active. -/
structure PageStream where
  reader : AdapterStreamReader
  /-- Whether `once` has run its function. -/
  once : Bool
  activeCalls : Int

namespace PageStream

/-- Opening the stream starts a call. -/
def opened (reader : AdapterStreamReader) (activeCalls : Int) : PageStream where
  reader := reader
  once := false
  activeCalls := activeCalls + 1

def after (s : PageStream) : StreamCall → PageStream
  | .read size cancelled =>
      if s.once ∧ cancelled ∧ s.reader.buf = [] then s
      else { s with reader := (s.reader.read size).2 }
  | .close =>
      if s.once then s else { s with once := true, activeCalls := s.activeCalls - 1 }
  | .elsewhere change => { s with activeCalls := s.activeCalls + change }

def run (s : PageStream) (calls : List StreamCall) : PageStream := calls.foldl after s

/-- By how much the other calls of the plugin change the number of active calls. -/
def change : StreamCall → Int
  | .elsewhere change => change
  | .read _ _ => 0
  | .close => 0

def changes : List StreamCall → Int
  | [] => 0
  | call :: calls => change call + changes calls

/-- The active calls without this stream's. -/
def others (s : PageStream) : Int := if s.once then s.activeCalls else s.activeCalls - 1

theorem others_after (s : PageStream) (call : StreamCall) :
    (s.after call).others = s.others + change call := by
  cases call with
  | read size cancelled =>
      rw [after, change, Int.add_zero]
      split <;> rfl
  | close =>
      cases done : s.once <;> simp [after, others, change, done]
  | elsewhere change =>
      cases done : s.once <;> simp only [after, others, done, if_true, PageStream.change]
      simp
      omega

theorem others_run (s : PageStream) (calls : List StreamCall) :
    (s.run calls).others = s.others + changes calls := by
  induction calls generalizing s with
  | nil => exact (Int.add_zero s.others).symm
  | cons call calls induction =>
      calc
        (s.run (call :: calls)).others = (s.after call).others + changes calls :=
          induction (s.after call)
        _ = s.others + change call + changes calls := by rw [others_after]
        _ = s.others + changes (call :: calls) := Int.add_assoc _ _ _

theorem once_after (s : PageStream) (call : StreamCall) (done : s.once) : (s.after call).once := by
  cases call with
  | read size cancelled =>
      rw [after]
      split <;> exact done
  | close => simp [after, done]
  | elsewhere change => exact done

theorem once_run (s : PageStream) (calls : List StreamCall) (done : s.once) :
    (s.run calls).once := by
  induction calls generalizing s with
  | nil => exact done
  | cons call calls induction => exact induction (s.after call) (s.once_after call done)

theorem once_of_close (s : PageStream) {calls : List StreamCall} (closed : .close ∈ calls) :
    (s.run calls).once := by
  obtain ⟨before, later, rfl⟩ := List.append_of_mem closed
  have done : ((s.run before).after .close).once := by
    rw [after]
    split
    · assumption
    · rfl
  rw [run, List.foldl_append]
  exact once_run _ later done

end PageStream

/-! ## The round trip -/

variable {a : GRPCProviderAdapter} {server : GRPCServer ContentProvider} {c : ContentProvider}
  {page : Page} {rc : PageReader}

/-- The host opens its stream on the reader of the provider. -/
theorem fetchPageStream_opened (client : a.contentClient = some server)
    (found : server.getProvider a.providerID = some c)
    (opens : c.fetchPageStream (GRPCContentProviderServer.requestedPage
      (a.fetchPageStreamRequest page)) = some rc.reader) :
    a.fetchPageStream page = some rc.opened := by
  have provider : server.getProvider (a.fetchPageStreamRequest page).providerId = some c := found
  simp only [GRPCProviderAdapter.fetchPageStream, client,
    GRPCContentProviderServer.fetchPageStream, provider, opens, PageReader.opened,
    GRPCContentProviderServer.sendChunks_eq, PageReader.reader, Option.bind_eq_bind,
    Option.bind_some]
  rfl

/-- The bytes that are read are the provider's, in order, whatever the pieces and buffers are; the
end comes after all of them, with the reader's error. Closing the stream gives up its call once. -/
theorem page_stream_round_trip (client : a.contentClient = some server)
    (found : server.getProvider a.providerID = some c)
    (opens : c.fetchPageStream (GRPCContentProviderServer.requestedPage
      (a.fetchPageStreamRequest page)) = some rc.reader) :
    ∃ r, a.fetchPageStream page = some r ∧
      (∀ sizes : List Nat, (∀ size ∈ sizes, 0 < size) →
        ∃ (blocks : List (List UInt8)) (ends : Nat),
          r.results sizes = blocks.map .ok ++ List.replicate ends (.error rc.readErr) ∧
          blocks.flatten <+: rc.bytes ∧ (0 < ends → blocks.flatten = rc.bytes) ∧
          (rc.bytes.length + rc.pieces.length + 1 < sizes.length → 0 < ends)) ∧
      ∀ (activeCalls : Int) (calls : List StreamCall), .close ∈ calls →
        ((PageStream.opened r activeCalls).run calls).activeCalls =
          (PageStream.opened r activeCalls).activeCalls + PageStream.changes calls - 1 := by
  refine ⟨rc.opened, fetchPageStream_opened client found opens, ?_, ?_⟩
  · intro sizes holds
    have err : rc.opened.err = rc.readErr := by
      cases kind : rc.readErr <;>
        simp [AdapterStreamReader.err, PageReader.opened,
          GRPCContentProviderServer.sendChunks_eq, kind]
    obtain ⟨blocks, ends, split, before, all⟩ := rc.opened.results_split sizes
    rw [rc.opened_content] at before all
    rw [err] at split
    refine ⟨blocks, ends, split, before, all, fun enough => ?_⟩
    have few : rc.opened.left < sizes.length := by
      have chunks := rc.opened_chunks
      rw [AdapterStreamReader.left, rc.opened_content]
      omega
    have reported := rc.opened.end_of_results sizes holds few
    rw [err, split] at reported
    rcases List.mem_append.1 reported with block | ended
    · simp at block
    · have some_end := (List.mem_replicate.1 ended).1
      omega
  · intro activeCalls calls closed
    have others := (PageStream.opened rc.opened activeCalls).others_run calls
    have once := (PageStream.opened rc.opened activeCalls).once_of_close closed
    simp only [PageStream.others, once, if_true] at others
    rw [others]
    simp only [PageStream.opened]
    simp
    omega

section TwoPieces

/-- A page in two pieces around an empty read, the last with the end of the file. -/
def twoPieces : PageReader where
  pieces := [[255, 216], []]
  last := [255, 217]
  readErr := .eof

def streaming : ContentProvider where
  hasStableChapterID := true
  fetchChapters _ := some []
  fetchPages _ _ := some []
  fetchPageStream _ := some twoPieces.reader
  rateLimit := { requestsPerSecond := 0, requestsPerMinute := 0 }

def streamingAdapter : GRPCProviderAdapter where
  providerID := "kiyomi.source"
  rateLimit := { requestsPerSecond := 0, requestsPerMinute := 0 }
  metaClient := none
  contentClient := some { providers := AList.singleton "kiyomi.source" streaming }
  trackClient := none

theorem page_stream_round_trip_two_pieces :
    ∃ r, streamingAdapter.fetchPageStream { index := 0, url := "/1.jpg" } = some r ∧
      (∀ sizes : List Nat, (∀ size ∈ sizes, 0 < size) →
        ∃ (blocks : List (List UInt8)) (ends : Nat),
          r.results sizes = blocks.map .ok ++ List.replicate ends (.error .eof) ∧
          blocks.flatten <+: [255, 216, 255, 217] ∧
          (0 < ends → blocks.flatten = [255, 216, 255, 217]) ∧
          (7 < sizes.length → 0 < ends)) ∧
      ∀ (activeCalls : Int) (calls : List StreamCall), .close ∈ calls →
        ((PageStream.opened r activeCalls).run calls).activeCalls =
          (PageStream.opened r activeCalls).activeCalls + PageStream.changes calls - 1 :=
  @page_stream_round_trip streamingAdapter _ streaming { index := 0, url := "/1.jpg" } twoPieces
    rfl rfl rfl

end TwoPieces

end Host

end Kiyomi.Plugin
