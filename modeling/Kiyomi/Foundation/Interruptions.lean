import Kiyomi.Foundation.Program

namespace Kiyomi.Program

/-! # Programs that are cut short

A process can end between any two calls of a program. What it leaves is a state that the
program reaches. -/

variable {Call : Type} {Reply : Call → Type} {State Choice α β : Type}

/-- The program may be cut short in the last state when it begins in the first one. -/
inductive Reaches (environment : Environment Call Reply State Choice) :
    Program Call Reply α → State → State → Prop
  | here (program state) : Reaches environment program state state
  | call {c next first choice reply middle last}
      (responded : environment first c choice = some (reply, middle))
      (later : Reaches environment (next reply) middle last) :
      Reaches environment (.call c next) first last

variable {environment : Environment Call Reply State Choice} {first last : State}

theorem reaches_done {value : α} :
    (.done value : Program Call Reply α).Reaches environment first last ↔ first = last := by
  constructor
  · intro reached
    cases reached
    rfl
  · rintro rfl
    exact .here _ _

theorem reaches_call {c : Call} {next : Reply c → Program Call Reply α} :
    (Program.call c next).Reaches environment first last ↔
      first = last ∨ ∃ choice reply middle, environment first c choice = some (reply, middle) ∧
        (next reply).Reaches environment middle last := by
  constructor
  · intro reached
    cases reached with
    | here => exact .inl rfl
    | call responded later => exact .inr ⟨_, _, _, responded, later⟩
  · rintro (rfl | ⟨choice, reply, middle, responded, later⟩)
    · exact .here _ _
    · exact .call responded later

/-- A run reaches its last state. -/
theorem Reaches.of_run {program : Program Call Reply α} {choices : List Choice} {value : α}
    (ran : program.run environment first choices = some (value, last)) :
    program.Reaches environment first last := by
  induction program generalizing first choices with
  | done result =>
      rcases run_done.mp ran with ⟨_, _, rfl⟩
      exact .here _ _
  | call c next induction =>
      rcases run_call.mp ran with ⟨choice, rest, reply, middle, _, responded, ran⟩
      exact .call responded (induction reply ran)

/-- A sequence is cut short in its first part or, when that has run, in the rest. -/
theorem reaches_bind {program : Program Call Reply α} {next : α → Program Call Reply β} :
    (program >>= next).Reaches environment first last ↔
      program.Reaches environment first last ∨
        ∃ choices value middle, program.run environment first choices = some (value, middle) ∧
          (next value).Reaches environment middle last := by
  induction program generalizing first with
  | done value =>
      rw [done_bind]
      constructor
      · exact fun reached => .inr ⟨[], value, first, rfl, reached⟩
      · rintro (reached | ⟨choices, value', middle, ran, reached⟩)
        · rw [reaches_done.mp reached]
          exact .here _ _
        · rcases run_done.mp ran with ⟨_, rfl, rfl⟩
          exact reached
  | call c rest induction =>
      rw [call_bind, reaches_call, reaches_call]
      constructor
      · rintro (rfl | ⟨choice, reply, middle, responded, later⟩)
        · exact .inl (.inl rfl)
        · rcases (induction reply).mp later with early | ⟨choices, value, state, ran, late⟩
          · exact .inl (.inr ⟨choice, reply, middle, responded, early⟩)
          · exact .inr ⟨choice :: choices, value, state,
              run_call.mpr ⟨choice, choices, reply, middle, rfl, responded, ran⟩, late⟩
      · rintro ((rfl | ⟨choice, reply, middle, responded, early⟩) | ⟨choices, value, state, ran, late⟩)
        · exact .inl rfl
        · exact .inr ⟨choice, reply, middle, responded, (induction reply).mpr (.inl early)⟩
        · rcases run_call.mp ran with ⟨choice, others, reply, middle, rfl, responded, ran⟩
          exact .inr ⟨choice, reply, middle, responded,
            (induction reply).mpr (.inr ⟨others, value, state, ran, late⟩)⟩

/-- What is made of the value in the end adds no state. -/
theorem reaches_map {program : Program Call Reply α} {g : α → β} :
    (program >>= fun value => .done (g value)).Reaches environment first last ↔
      program.Reaches environment first last := by
  rw [reaches_bind]
  constructor
  · rintro (reached | ⟨choices, value, middle, ran, reached⟩)
    · exact reached
    · rw [← reaches_done.mp reached]
      exact .of_run ran
  · exact .inl

theorem run_map {program : Program Call Reply α} {g : α → β} {choices : List Choice} {result : β} :
    (program >>= fun value => .done (g value)).run environment first choices =
      some (result, last) ↔
      ∃ value, program.run environment first choices = some (value, last) ∧ g value = result := by
  rw [run_bind]
  constructor
  · rintro ⟨before, rest, value, middle, rfl, ran, ended⟩
    rcases run_done.mp ended with ⟨rfl, same, rfl⟩
    rw [List.append_nil]
    exact ⟨value, ran, same⟩
  · rintro ⟨value, ran, same⟩
    exact ⟨choices, [], value, last, (List.append_nil choices).symm, ran,
      run_done.mpr ⟨rfl, same, rfl⟩⟩

theorem bind_done (program : Program Call Reply α) : program >>= .done = program := by
  induction program with
  | done value => rfl
  | call c next induction => exact congrArg (Program.call c) (funext induction)

/-- The invariant rule for programs that are cut short. -/
theorem Calls.reaches {program : Program Call Reply α} {kind : Call → Prop} {post : α → Prop}
    (calls : program.Calls kind post) (Invariant : State → Prop)
    (preserved : ∀ state c choice reply next, kind c → Invariant state →
      environment state c choice = some (reply, next) → Invariant next)
    (reached : program.Reaches environment first last) (initially : Invariant first) :
    Invariant last := by
  induction reached with
  | here => exact initially
  | call responded _ induction =>
      exact induction (calls.2 _) (preserved _ _ _ _ _ calls.1 initially responded)

variable (environment) in
/-- The state after some calls under the choices. -/
def after : Program Call Reply α → State → List Choice → Option State
  | _, state, [] => some state
  | .done _, _, _ :: _ => none
  | .call c next, state, choice :: choices =>
      match environment state c choice with
      | none => none
      | some (reply, state) => (next reply).after state choices

theorem Reaches.of_after {program : Program Call Reply α} {choices : List Choice}
    (left : program.after environment first choices = some last) :
    program.Reaches environment first last := by
  induction program generalizing first choices with
  | done value =>
      cases choices with
      | nil =>
          cases left
          exact .here _ _
      | cons choice choices => cases left
  | call c next induction =>
      cases choices with
      | nil =>
          cases left
          exact .here _ _
      | cons choice choices =>
          rw [after] at left
          split at left
          · contradiction
          · rename_i reply state responded
            exact .call responded (induction reply left)

end Kiyomi.Program
