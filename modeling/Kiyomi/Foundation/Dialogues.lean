import Kiyomi.Foundation.Program

namespace Kiyomi.Program

/-! # Dialogues

The calls of a program with the replies to them, where nothing is known of the replies. -/

abbrev Dialogue (Call : Type) (Reply : Call → Type) := List ((c : Call) × Reply c)

variable {Call : Type} {Reply : Call → Type} {α β Seen : Type}

/-- The program makes these calls, gets these replies and returns the value. -/
inductive Answered : Program Call Reply α → Dialogue Call Reply → α → Prop
  | done (value : α) : Answered (.done value) [] value
  | call {c : Call} {next : Reply c → Program Call Reply α} {reply : Reply c}
      {said : Dialogue Call Reply} {value : α} (rest : Answered (next reply) said value) :
      Answered (.call c next) (⟨c, reply⟩ :: said) value

theorem answered_done {value result : α} {said : Dialogue Call Reply} :
    (.done value : Program Call Reply α).Answered said result ↔ said = [] ∧ result = value := by
  constructor
  · intro answered
    cases answered
    exact ⟨rfl, rfl⟩
  · rintro ⟨rfl, rfl⟩
    exact .done _

theorem answered_call {c : Call} {next : Reply c → Program Call Reply α} {result : α}
    {said : Dialogue Call Reply} :
    (Program.call c next).Answered said result ↔
      ∃ reply rest, said = ⟨c, reply⟩ :: rest ∧ (next reply).Answered rest result := by
  constructor
  · intro answered
    cases answered with
    | call rest => exact ⟨_, _, rfl, rest⟩
  · rintro ⟨reply, rest, rfl, answered⟩
    exact .call answered

/-- A dialogue of a sequence is one of its first part and one of the rest. -/
theorem answered_bind {program : Program Call Reply α} {next : α → Program Call Reply β}
    {result : β} {said : Dialogue Call Reply} :
    (program >>= next).Answered said result ↔
      ∃ before after value, said = before ++ after ∧ program.Answered before value ∧
        (next value).Answered after result := by
  induction program generalizing said with
  | done value =>
      rw [done_bind]
      constructor
      · intro answered
        exact ⟨[], said, value, rfl, .done value, answered⟩
      · rintro ⟨before, after, value', rfl, answered, rest⟩
        rcases (answered_done).mp answered with ⟨rfl, rfl⟩
        exact rest
  | call c rest induction =>
      rw [call_bind, answered_call]
      constructor
      · rintro ⟨reply, others, rfl, answered⟩
        rcases (induction reply).mp answered with ⟨before, after, value, rfl, answered, last⟩
        exact ⟨⟨c, reply⟩ :: before, after, value, rfl,
          (answered_call).mpr ⟨reply, before, rfl, answered⟩, last⟩
      · rintro ⟨before, after, value, rfl, answered, last⟩
        rcases (answered_call).mp answered with ⟨reply, others, rfl, inner⟩
        exact ⟨reply, others ++ after, rfl,
          (induction reply).mpr ⟨others, after, value, rfl, inner, last⟩⟩

/-- What an observer makes of a dialogue. -/
def Watch.through (watch : Watch Call Reply Seen) (seen : Seen) (said : Dialogue Call Reply) :
    Seen :=
  said.foldl (fun seen entry => watch.after seen entry.1 entry.2) seen

/-- The observation rule: in a dialogue of possible replies every call was allowed when it
was made, and the value meets the condition by what was seen. -/
theorem Watched.answered {watch : Watch Call Reply Seen} {post : Seen → α → Prop} {seen : Seen}
    {program : Program Call Reply α} (watched : program.Watched watch post seen)
    {said : Dialogue Call Reply} {value : α} (answered : program.Answered said value)
    (possible : ∀ entry ∈ said, watch.possible entry.1 entry.2) :
    post (watch.through seen said) value ∧
      ∀ entry ∈ said, ∃ known, watch.allowed known entry.1 := by
  induction answered generalizing seen with
  | done value => exact ⟨watched, by simp⟩
  | call rest induction =>
      rw [List.forall_mem_cons] at possible
      rcases induction (watched.2 _ possible.1) possible.2 with ⟨holds, allowed⟩
      exact ⟨holds, List.forall_mem_cons.mpr ⟨⟨seen, watched.1⟩, allowed⟩⟩

end Kiyomi.Program
