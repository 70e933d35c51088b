import Kiyomi.Plugin.Host.Interceptor

namespace Kiyomi.Plugin.Host

open Go

/-! # The two streams of a plugin

`startInstance` gives one interceptor to both output streams of the process, which write to it
in turns. -/

inductive Stream
  | stdout
  | stderr
  deriving DecidableEq

def Stream.other : Stream → Stream
  | .stdout => .stderr
  | .stderr => .stdout

/-- The chunks of both streams, in the order in which they come in. -/
abbrev Writes := List (Stream × List UInt8)

namespace Writes

/-- All that has been written to one stream. -/
def bytesOf (writes : Writes) (stream : Stream) : List UInt8 :=
  ((writes.filter fun write => write.1 = stream).map Prod.snd).flatten

/-- All that has been written, in the order in which it came in. -/
def bytes (writes : Writes) : List UInt8 := (writes.map Prod.snd).flatten

/-- The interceptor after the writes. -/
def intercepted {V : Type} (d : LogDecoder V) (clock : Nat → Time) (capacity : Nat)
    (writes : Writes) : LogInterceptor V :=
  .writeAll d clock (.new capacity) (writes.map Prod.snd)

open LogInterceptor Lines

/-- The lines that have ended are recorded whole, those of each stream in their order; and so
are all lines when the interceptor is flushed. -/
structure Intact {V : Type} (d : LogDecoder V) (clock : Nat → Time) (writes : Writes) : Prop where
  ended : ∃ merged, Interleaves (trimmedLines (complete newline (writes.bytesOf .stdout)))
      (trimmedLines (complete newline (writes.bytesOf .stderr))) merged ∧
    ∀ capacity, 0 < capacity →
      (writes.intercepted d clock capacity).buffer.entries.map (·.raw) = merged.rtake capacity
  flushed : ∃ merged, Interleaves (trimmedLines ((writes.bytesOf .stdout).splitOn newline))
      (trimmedLines ((writes.bytesOf .stderr).splitOn newline)) merged ∧
    ∀ capacity, 0 < capacity →
      ((writes.intercepted d clock capacity).flush d clock).buffer.entries.map (·.raw) =
        merged.rtake capacity

/-- The stream is within a line. -/
def Midline (writes : Writes) (stream : Stream) : Prop :=
  Bytes.trimSpace (rest newline (writes.bytesOf stream)) ≠ []

/-- No stream writes while the other is within a line. -/
def TakesTurns : Writes → Writes → Prop
  | _, [] => True
  | before, write :: later =>
      (write.2 ≠ [] → ¬ before.Midline write.1.other) ∧ TakesTurns (before ++ [write]) later

variable {V : Type} {d : LogDecoder V} {clock : Nat → Time} {writes before later : Writes}
  {stream : Stream} {chunk : List UInt8}

/-! ## What is recorded -/

theorem map_raw_entriesFrom (n : Nat) (lines : List (List UInt8)) :
    (entriesFrom d clock n lines).map (·.raw) = lines := by
  induction lines generalizing n with
  | nil => rfl
  | cons line lines induction =>
      have raw : (d.entry (clock n) line).raw = line := by
        unfold LogDecoder.entry
        split <;> rfl
      rw [entriesFrom, List.map_cons, induction, raw]

theorem map_rtake {α β : Type} (f : α → β) (n : Nat) (xs : List α) :
    (xs.rtake n).map f = (xs.map f).rtake n := by
  rw [List.rtake, List.rtake, List.map_drop, List.length_map]

theorem raw_intercepted {capacity : Nat} (positive : 0 < capacity) :
    (writes.intercepted d clock capacity).buffer.entries.map (·.raw) =
      (trimmedLines (complete newline writes.bytes)).rtake capacity := by
  rw [intercepted, writeAll_eq, write_eq List.not_mem_nil]
  change List.map _ (RingBuffer.entries (List.foldl RingBuffer.push (RingBuffer.new capacity) _)) = _
  rw [RingBuffer.entries_pushAll, RingBuffer.entries_new, RingBuffer.capacity_new positive,
    List.nil_append, map_rtake, map_raw_entriesFrom]
  rfl

theorem raw_flushed {capacity : Nat} (positive : 0 < capacity) :
    ((writes.intercepted d clock capacity).flush d clock).buffer.entries.map (·.raw) =
      (trimmedLines (writes.bytes.splitOn newline)).rtake capacity := by
  rw [intercepted, writeAll_eq, entries_flush positive, map_rtake, map_raw_entriesFrom]
  rfl

theorem eq_of_rtake {xs ys : List (List UInt8)}
    (same : ∀ capacity, 0 < capacity → xs.rtake capacity = ys.rtake capacity) : xs = ys := by
  have whole := same (xs.length + ys.length + 1) (Nat.succ_pos _)
  rwa [RingBuffer.rtake_of_length_le (by omega), RingBuffer.rtake_of_length_le (by omega)] at whole

theorem intact_iff : Intact d clock writes ↔
    Interleaves (trimmedLines (complete newline (writes.bytesOf .stdout)))
      (trimmedLines (complete newline (writes.bytesOf .stderr)))
      (trimmedLines (complete newline writes.bytes)) ∧
    Interleaves (trimmedLines ((writes.bytesOf .stdout).splitOn newline))
      (trimmedLines ((writes.bytesOf .stderr).splitOn newline))
      (trimmedLines (writes.bytes.splitOn newline)) := by
  constructor
  · rintro ⟨⟨merged, interleaves, ended⟩, ⟨all, allInterleave, flushed⟩⟩
    have isMerged := eq_of_rtake fun capacity positive =>
      (raw_intercepted positive).symm.trans (ended capacity positive)
    have isAll := eq_of_rtake fun capacity positive =>
      (raw_flushed positive).symm.trans (flushed capacity positive)
    rw [isMerged, isAll]
    exact ⟨interleaves, allInterleave⟩
  · rintro ⟨ended, flushed⟩
    exact ⟨⟨_, ended, fun _ positive => raw_intercepted positive⟩,
      ⟨_, flushed, fun _ positive => raw_flushed positive⟩⟩

/-! ## One more write -/

theorem bytesOf_append (writes later : Writes) (stream : Stream) :
    (writes ++ later).bytesOf stream = writes.bytesOf stream ++ later.bytesOf stream := by
  simp only [bytesOf, List.filter_append, List.map_append, List.flatten_append]

theorem bytes_append (writes later : Writes) :
    (writes ++ later).bytes = writes.bytes ++ later.bytes := by
  simp only [bytes, List.map_append, List.flatten_append]

theorem bytesOf_self (stream : Stream) (chunk : List UInt8) :
    bytesOf [(stream, chunk)] stream = chunk := by
  simp [bytesOf]

theorem bytesOf_other {stream other : Stream} (different : stream ≠ other) (chunk : List UInt8) :
    bytesOf [(stream, chunk)] other = [] := by
  simp [bytesOf, different]

theorem bytesOf_write_self (writes : Writes) (stream : Stream) (chunk : List UInt8) :
    (writes ++ [(stream, chunk)]).bytesOf stream = writes.bytesOf stream ++ chunk := by
  rw [bytesOf_append, bytesOf_self]

theorem bytesOf_write_other (writes : Writes) {stream other : Stream} (different : stream ≠ other)
    (chunk : List UInt8) : (writes ++ [(stream, chunk)]).bytesOf other = writes.bytesOf other := by
  rw [bytesOf_append, bytesOf_other different, List.append_nil]

theorem bytes_write (writes : Writes) (stream : Stream) (chunk : List UInt8) :
    (writes ++ [(stream, chunk)]).bytes = writes.bytes ++ chunk := by
  rw [bytes_append]
  exact congrArg (writes.bytes ++ ·) (List.append_nil chunk)

theorem Interleaves.ofStreams {β : Type} {lines : Stream → List β} {merged : List β}
    (stream : Stream) : Interleaves (lines .stdout) (lines .stderr) merged ↔
      Interleaves (lines stream) (lines stream.other) merged := by
  cases stream with
  | stdout => exact Iff.rfl
  | stderr => exact ⟨.symm, .symm⟩

theorem Stream.other_ne (stream : Stream) : stream.other ≠ stream := by
  cases stream <;> exact Stream.noConfusion

theorem Stream.other_other (stream : Stream) : stream.other.other = stream := by
  cases stream <;> rfl

/-- Beginnings that differ in white space only begin the same lines. -/
theorem sameLines {begun begun' : List UInt8} (free : newline ∉ begun) (free' : newline ∉ begun')
    (same : Bytes.trimLeftSpace begun = Bytes.trimLeftSpace begun') (more : List UInt8) :
    trimmedLines (complete newline (begun ++ more)) =
        trimmedLines (complete newline (begun' ++ more)) ∧
      Bytes.trimLeftSpace (rest newline (begun ++ more)) =
        Bytes.trimLeftSpace (rest newline (begun' ++ more)) := by
  have grown (text : List UInt8) :
      Bytes.trimLeftSpace (begun ++ text) = Bytes.trimLeftSpace (begun' ++ text) := by
    rw [Bytes.trimLeftSpace_append, same, ← Bytes.trimLeftSpace_append]
  by_cases ends : newline ∈ more
  · rcases List.eq_append_cons_of_mem ends with ⟨first, later, rfl, firstFree⟩
    have apart : newline ∉ begun ++ first := by
      rw [List.mem_append, not_or]
      exact ⟨free, firstFree⟩
    have apart' : newline ∉ begun' ++ first := by
      rw [List.mem_append, not_or]
      exact ⟨free', firstFree⟩
    rw [← List.append_assoc, ← List.append_assoc, complete_line apart, complete_line apart',
      rest_line apart, rest_line apart', ← List.singleton_append, trimmedLines_append,
      ← @List.singleton_append _ (begun' ++ first), trimmedLines_append]
    refine ⟨congrArg (· ++ _) ?_, rfl⟩
    rw [trimmedLines, trimmedLines, List.map_singleton, List.map_singleton, Bytes.trimSpace,
      Bytes.trimSpace, grown]
  · have apart : newline ∉ begun ++ more := by
      rw [List.mem_append, not_or]
      exact ⟨free, ends⟩
    have apart' : newline ∉ begun' ++ more := by
      rw [List.mem_append, not_or]
      exact ⟨free', ends⟩
    rw [(lines_of_not_mem apart).1, (lines_of_not_mem apart').1, (lines_of_not_mem apart).2,
      (lines_of_not_mem apart').2]
    exact ⟨rfl, grown more⟩

theorem trimmedLines_blank {line : List UInt8} (blank : Bytes.trimLeftSpace line = []) :
    trimmedLines [line] = [] := by
  simp [trimmedLines, Bytes.trimSpace_eq_nil_iff.mpr blank]

theorem trimmedLines_text {line : List UInt8} (text : Bytes.trimLeftSpace line ≠ []) :
    trimmedLines [line] = [Bytes.trimSpace line] := by
  simp [trimmedLines, mt Bytes.trimSpace_eq_nil_iff.mp text]

/-! ## Taking turns -/

/-- The lines that have ended are whole, and the buffer holds the line of one stream, but for
white space at its start, while the other has begun none. -/
structure Kept (writes : Writes) : Prop where
  ended : Interleaves (trimmedLines (complete newline (writes.bytesOf .stdout)))
    (trimmedLines (complete newline (writes.bytesOf .stderr)))
    (trimmedLines (complete newline writes.bytes))
  pending : ∃ stream, Bytes.trimLeftSpace (rest newline writes.bytes) =
      Bytes.trimLeftSpace (rest newline (writes.bytesOf stream)) ∧
    ¬ writes.Midline stream.other

theorem not_midline_iff : ¬ writes.Midline stream ↔
    Bytes.trimLeftSpace (rest newline (writes.bytesOf stream)) = [] := by
  rw [Midline, not_not, Bytes.trimSpace_eq_nil_iff]

theorem kept_nil : Kept [] where
  ended := .nil
  pending := ⟨.stdout, rfl, not_midline_iff.mpr rfl⟩

theorem trimmedLines_splitOn_eq (text : List UInt8) : trimmedLines (text.splitOn newline) =
    trimmedLines (complete newline text) ++ trimmedLines [rest newline text] := by
  rw [← complete_append_rest, trimmedLines_append]

theorem Kept.intact (kept : Kept writes) : Intact d clock writes := by
  refine intact_iff.mpr ⟨kept.ended, ?_⟩
  rcases kept.pending with ⟨stream, same, blank⟩
  have sameLine : trimmedLines [rest newline writes.bytes] =
      trimmedLines [rest newline (writes.bytesOf stream)] := by
    rw [trimmedLines, trimmedLines, List.map_singleton, List.map_singleton, Bytes.trimSpace,
      Bytes.trimSpace, same]
  refine (@Interleaves.ofStreams _
    (fun stream => trimmedLines ((writes.bytesOf stream).splitOn newline)) _ stream).mpr ?_
  simp only [trimmedLines_splitOn_eq, trimmedLines_blank (not_midline_iff.mp blank), sameLine]
  exact ((@Interleaves.ofStreams _
    (fun stream => trimmedLines (complete newline (writes.bytesOf stream))) _ stream).mp
      kept.ended).append (.ofFirst _)

theorem Kept.aligned (kept : Kept writes) (blank : ¬ writes.Midline stream.other) :
    Bytes.trimLeftSpace (rest newline writes.bytes) =
      Bytes.trimLeftSpace (rest newline (writes.bytesOf stream)) := by
  rcases kept.pending with ⟨owner, same, otherBlank⟩
  by_cases isOwner : owner = stream
  · exact isOwner ▸ same
  · have isOther : owner = stream.other := by
      cases owner <;> cases stream <;> first | rfl | contradiction
    subst isOther
    rw [Stream.other_other] at otherBlank
    rw [same, not_midline_iff.mp blank, not_midline_iff.mp otherBlank]

theorem Kept.write (kept : Kept writes)
    (turn : chunk ≠ [] → ¬ writes.Midline stream.other) : Kept (writes ++ [(stream, chunk)]) := by
  by_cases empty : chunk = []
  · subst empty
    have sameBytes (other : Stream) :
        (writes ++ [(stream, [])]).bytesOf other = writes.bytesOf other := by
      by_cases same : stream = other
      · rw [← same, bytesOf_write_self, List.append_nil]
      · exact bytesOf_write_other writes same []
    have sameAll : (writes ++ [(stream, [])]).bytes = writes.bytes := by
      rw [bytes_write, List.append_nil]
    rcases kept with ⟨ended, pending⟩
    refine ⟨?_, ?_⟩
    · rwa [sameBytes, sameBytes, sameAll]
    · simpa only [Midline, sameBytes, sameAll] using pending
  · have blank := turn empty
    have lines := sameLines (not_mem_rest writes.bytes) (not_mem_rest (writes.bytesOf stream))
      (kept.aligned blank) chunk
    refine ⟨?_, stream, ?_, ?_⟩
    · refine (@Interleaves.ofStreams _ (fun written => trimmedLines
        (complete newline ((writes ++ [(stream, chunk)]).bytesOf written))) _ stream).mpr ?_
      rw [bytesOf_write_self, bytesOf_write_other writes (Stream.other_ne stream).symm,
        bytes_write, complete_append (writes.bytesOf stream), complete_append writes.bytes,
        trimmedLines_append, trimmedLines_append, lines.1]
      have more := ((@Interleaves.ofStreams _
        (fun written => trimmedLines (complete newline (writes.bytesOf written))) _ stream).mp
          kept.ended).append (.ofFirst
            (trimmedLines (complete newline (rest newline (writes.bytesOf stream) ++ chunk))))
      rwa [List.append_nil] at more
    · rw [bytesOf_write_self, bytes_write, rest_append, rest_append (writes.bytesOf stream)]
      exact lines.2
    · rwa [Midline, bytesOf_write_other writes (Stream.other_ne stream).symm]

theorem takesTurns_append (before later more : Writes) : TakesTurns before (later ++ more) ↔
    TakesTurns before later ∧ TakesTurns (before ++ later) more := by
  induction later generalizing before with
  | nil => simp [TakesTurns]
  | cons write later induction =>
      rw [List.cons_append, TakesTurns, TakesTurns, induction, and_assoc, List.append_assoc,
        List.singleton_append]

theorem Kept.run (kept : Kept before) (turns : TakesTurns before later) :
    Kept (before ++ later) := by
  induction later generalizing before with
  | nil => rwa [List.append_nil]
  | cons write later induction =>
      have kept' := induction (kept.write turns.1) turns.2
      rwa [List.append_assoc, List.singleton_append] at kept'

/-! ## Out of turn -/

/-- A letter. -/
def letter : UInt8 := 0x41

theorem trimSpace_letter {line : List UInt8} (text : Bytes.trimLeftSpace line ≠ []) :
    Bytes.trimSpace (line ++ [letter]) = Bytes.trimLeftSpace line ++ [letter] := by
  rw [Bytes.trimSpace, Bytes.trimLeftSpace_runes (by decide) text,
    Bytes.trimRightSpace_concat (by decide) (by decide)]

/-- The lines that have not ended, as they are recorded by a flush. -/
theorem Intact.pending (intact : Intact d clock writes) (stream : Stream) :
    (trimmedLines [rest newline writes.bytes]).length =
      (trimmedLines [rest newline (writes.bytesOf stream)]).length +
        (trimmedLines [rest newline (writes.bytesOf stream.other)]).length := by
  rcases intact_iff.mp intact with ⟨ended, flushed⟩
  have endedLength := ((@Interleaves.ofStreams _
    (fun written => trimmedLines (complete newline (writes.bytesOf written))) _ stream).mp
      ended).perm.length_eq
  have flushedLength := ((@Interleaves.ofStreams _
    (fun written => trimmedLines ((writes.bytesOf written).splitOn newline)) _ stream).mp
      flushed).perm.length_eq
  simp only [trimmedLines_splitOn_eq, List.length_append] at endedLength flushedLength
  omega

/-- The bytes of these lines. -/
theorem Intact.pending_bytes (intact : Intact d clock writes) (stream : Stream) :
    (trimmedLines [rest newline writes.bytes]).flatten.length =
      (trimmedLines [rest newline (writes.bytesOf stream)]).flatten.length +
        (trimmedLines [rest newline (writes.bytesOf stream.other)]).flatten.length := by
  rcases intact_iff.mp intact with ⟨ended, flushed⟩
  have endedLength := ((@Interleaves.ofStreams _
    (fun written => trimmedLines (complete newline (writes.bytesOf written))) _ stream).mp
      ended).perm.flatten.length_eq
  have flushedLength := ((@Interleaves.ofStreams _
    (fun written => trimmedLines ((writes.bytesOf written).splitOn newline)) _ stream).mp
      flushed).perm.flatten.length_eq
  simp only [trimmedLines_splitOn_eq, List.flatten_append, List.length_append]
    at endedLength flushedLength
  omega

/-- A write out of turn breaks a line: at once, or when the other stream goes on. -/
theorem Kept.breaks (kept : Kept before) (nonempty : chunk ≠ [])
    (midline : before.Midline stream.other)
    (sound : ∀ later, TakesTurns (before ++ [(stream, chunk)]) later →
      Intact d clock (before ++ [(stream, chunk)] ++ later)) : False := by
  have begun := mt not_midline_iff.mpr (not_not.mpr midline)
  have ownBlank : Bytes.trimLeftSpace (rest newline (before.bytesOf stream)) = [] := by
    rw [← not_midline_iff]
    rcases kept.pending with ⟨owner, _, otherBlank⟩
    by_cases isOwner : owner = stream
    · exact absurd (isOwner ▸ midline) otherBlank
    · have isOther : owner = stream.other := by
        cases owner <;> cases stream <;> first | rfl | contradiction
      rwa [isOther, Stream.other_other] at otherBlank
  have same := @Kept.aligned _ stream.other kept
    (by rwa [Stream.other_other, not_midline_iff])
  have apart := (Stream.other_ne stream).symm
  have now := (sound [] trivial).pending stream
  rw [List.append_nil, bytes_write, bytesOf_write_self, bytesOf_write_other before apart,
    trimmedLines_text begun, rest_append, rest_append (before.bytesOf stream)] at now
  by_cases ends : newline ∈ chunk
  · -- The rest of the chunk is all that the buffer holds.
    rcases List.eq_append_cons_of_mem ends with ⟨first, more, rfl, firstFree⟩
    have free (text : List UInt8) : newline ∉ rest newline text ++ first := by
      rw [List.mem_append, not_or]
      exact ⟨not_mem_rest text, firstFree⟩
    rw [← List.append_assoc, ← List.append_assoc, rest_line (free _), rest_line (free _)] at now
    simp at now
  · have free (text : List UInt8) : newline ∉ rest newline text ++ chunk := by
      rw [List.mem_append, not_or]
      exact ⟨not_mem_rest text, ends⟩
    rw [(lines_of_not_mem (free _)).2, (lines_of_not_mem (free _)).2] at now
    have few : (trimmedLines [rest newline before.bytes ++ chunk]).length ≤ 1 :=
      (List.length_filter_le _ _).trans_eq (List.length_map _)
    have blank : Bytes.trimLeftSpace (rest newline (before.bytesOf stream) ++ chunk) = [] := by
      by_contra text
      rw [trimmedLines_text text] at now
      simp only [List.length_singleton] at now
      omega
    have chunkBlank : Bytes.trimLeftSpace chunk = [] := by
      rwa [Bytes.trimLeftSpace_append, ownBlank, List.nil_append] at blank
    obtain ⟨b, t, rfl⟩ := List.exists_cons_of_ne_nil nonempty
    have starts := Bytes.startsRune_of_blank chunkBlank
    -- The other stream goes on with its line, in which there is white space now.
    have goesOn : TakesTurns (before ++ [(stream, b :: t)]) [(stream.other, [letter])] := by
      refine ⟨fun _ => ?_, trivial⟩
      rwa [Stream.other_other, not_midline_iff, bytesOf_write_self, rest_append,
        (lines_of_not_mem (free _)).2]
    have later := (sound _ goesOn).pending_bytes stream
    have grown : Bytes.trimLeftSpace (rest newline before.bytes ++ b :: t) =
        Bytes.trimLeftSpace (rest newline before.bytes) ++ b :: t :=
      Bytes.trimLeftSpace_runes starts (same ▸ begun) t
    have otherFree : newline ∉ rest newline (before.bytesOf stream.other) ++ [letter] := by
      rw [List.mem_append, not_or]
      exact ⟨not_mem_rest _, by decide⟩
    have allFree : newline ∉ rest newline before.bytes ++ b :: t ++ [letter] := by
      rw [List.mem_append, not_or]
      exact ⟨free _, by decide⟩
    rw [bytes_write, bytes_write, bytesOf_write_other _ (Stream.other_ne stream), bytesOf_write_self,
      bytesOf_write_self, bytesOf_write_other _ apart, List.append_assoc, rest_append,
      ← List.append_assoc, (lines_of_not_mem allFree).2, rest_append (before.bytesOf stream),
      (lines_of_not_mem (free _)).2, trimmedLines_blank blank, rest_append _ [letter],
      (lines_of_not_mem otherFree).2, trimmedLines_text, trimmedLines_text,
      trimSpace_letter, trimSpace_letter begun, grown, same] at later
    · simp at later
    · rw [grown]
      exact List.append_ne_nil_of_right_ne_nil _ (List.cons_ne_nil b t)
    · rw [Bytes.trimLeftSpace_runes (by decide) begun]
      exact List.append_ne_nil_of_right_ne_nil _ (List.cons_ne_nil letter [])
    · rw [Bytes.trimLeftSpace_runes (by decide), grown]
      · exact List.append_ne_nil_of_right_ne_nil _ (List.cons_ne_nil letter [])
      · rw [grown]
        exact List.append_ne_nil_of_right_ne_nil _ (List.cons_ne_nil b t)

/-- Whatever the plugin writes, its lines are intact at every point, and stay so as long as the
streams take turns from there on, exactly if they have taken turns. -/
theorem intact_iff_takesTurns (d : LogDecoder V) (clock : Nat → Time) (writes : Writes) :
    (∀ before, before <+: writes → ∀ later, TakesTurns before later →
      Intact d clock (before ++ later)) ↔ TakesTurns [] writes := by
  constructor
  · intro sound
    induction writes using List.reverseRecOn with
    | nil => trivial
    | append_singleton writes write induction =>
        have turns := induction fun before isPrefix =>
          sound before (isPrefix.trans (List.prefix_append writes [write]))
        have kept : Kept writes := kept_nil.run turns
        refine (takesTurns_append [] writes [write]).mpr ⟨turns, fun nonempty midline => ?_, trivial⟩
        exact kept.breaks nonempty midline (sound _ List.prefix_rfl)
  · rintro turns before ⟨after, rfl⟩ later others
    have kept : Kept before := kept_nil.run ((takesTurns_append [] before after).mp turns).1
    exact (kept.run others).intact

/-- `ac` on one stream and `b` on the other, written as `a`, `b` and `c`. -/
theorem lines_of_streams_mixed :
    ¬ ∀ (d : LogDecoder Unit) (clock : Nat → Time) (writes : Writes), Intact d clock writes := by
  intro always
  have ended := (intact_iff.mp (always plainText (fun _ => Time.zero)
    [(.stdout, [0x61]), (.stderr, [0x62, 0x0A]), (.stdout, [0x63, 0x0A])])).1
  have perm := ended.perm
  revert perm
  decide +kernel

end Writes

end Kiyomi.Plugin.Host
