namespace Kiyomi

/-! # Programs that call their environment

A program is its result, or a call with what follows on every reply. The environment
decides the replies; a choice settles what the calling program cannot know. -/

inductive Program (Call : Type) (Reply : Call → Type) (α : Type)
  | done (value : α)
  | call (c : Call) (next : Reply c → Program Call Reply α)

/-- What comes back from a call in a state under a choice, and the state afterwards;
nothing when the choice is not possible there. -/
abbrev Environment (Call : Type) (Reply : Call → Type) (State Choice : Type) :=
  State → (c : Call) → Choice → Option (Reply c × State)

namespace Program

variable {Call : Type} {Reply : Call → Type} {State Choice α β : Type}

def bind : Program Call Reply α → (α → Program Call Reply β) → Program Call Reply β
  | .done value, next => next value
  | .call c rest, next => .call c fun reply => (rest reply).bind next

instance : Monad (Program Call Reply) where
  pure := .done
  bind := .bind

@[simp] theorem pure_eq (value : α) : (pure value : Program Call Reply α) = .done value := rfl

@[simp] theorem done_bind (value : α) (next : α → Program Call Reply β) :
    (.done value : Program Call Reply α) >>= next = next value := rfl

@[simp] theorem call_bind (c : Call) (rest : Reply c → Program Call Reply α)
    (next : α → Program Call Reply β) :
    .call c rest >>= next = .call c fun reply => rest reply >>= next := rfl

theorem bind_assoc {γ : Type} (program : Program Call Reply α) (next : α → Program Call Reply β)
    (last : β → Program Call Reply γ) :
    program >>= next >>= last = program >>= fun value => next value >>= last := by
  induction program with
  | done value => rfl
  | call c rest induction => exact congrArg (Program.call c) (funext induction)

/-- A single call. -/
def perform (c : Call) : Program Call Reply (Reply c) := .call c .done

@[simp] theorem perform_bind (c : Call) (next : Reply c → Program Call Reply β) :
    perform c >>= next = .call c next := rfl

/-! ## Runs -/

variable (environment : Environment Call Reply State Choice)

/-- The run under a list of choices, one for each call. -/
def run : Program Call Reply α → State → List Choice → Option (α × State)
  | .done value, state, [] => some (value, state)
  | .done _, _, _ :: _ => none
  | .call _ _, _, [] => none
  | .call c next, state, choice :: choices =>
      match environment state c choice with
      | none => none
      | some (reply, state) => (next reply).run state choices

variable {environment}

theorem run_done {value result : α} {first last : State} {choices : List Choice} :
    (.done value : Program Call Reply α).run environment first choices = some (result, last) ↔
      choices = [] ∧ value = result ∧ first = last := by
  cases choices with
  | nil => simp [run]
  | cons choice choices => simp [run]

theorem run_call {c : Call} {next : Reply c → Program Call Reply α} {result : α}
    {first last : State} {choices : List Choice} :
    (Program.call c next).run environment first choices = some (result, last) ↔
      ∃ choice rest reply middle, choices = choice :: rest ∧
        environment first c choice = some (reply, middle) ∧
        (next reply).run environment middle rest = some (result, last) := by
  cases choices with
  | nil => simp [run]
  | cons choice rest =>
      rw [run]
      constructor
      · intro ran
        split at ran
        · contradiction
        · rename_i reply middle responded
          exact ⟨choice, rest, reply, middle, rfl, responded, ran⟩
      · rintro ⟨_, _, reply, middle, same, responded, ran⟩
        cases same
        rw [responded]
        exact ran

/-- A run of a sequence is a run of its first part and one of the rest. -/
theorem run_bind {program : Program Call Reply α} {next : α → Program Call Reply β} {result : β}
    {first last : State} {choices : List Choice} :
    (program >>= next).run environment first choices = some (result, last) ↔
      ∃ before after value middle, choices = before ++ after ∧
        program.run environment first before = some (value, middle) ∧
        (next value).run environment middle after = some (result, last) := by
  induction program generalizing first choices with
  | done value =>
      rw [done_bind]
      constructor
      · intro ran
        exact ⟨[], choices, value, first, rfl, (run_done).mpr ⟨rfl, rfl, rfl⟩, ran⟩
      · rintro ⟨before, after, value', middle, parts, ran, rest⟩
        rcases (run_done).mp ran with ⟨rfl, rfl, rfl⟩
        rw [parts]
        exact rest
  | call c rest induction =>
      rw [call_bind, run_call]
      constructor
      · rintro ⟨choice, others, reply, middle, rfl, responded, ran⟩
        rcases (induction reply).mp ran with ⟨before, after, value, later, rfl, ran, next⟩
        exact ⟨choice :: before, after, value, later, rfl,
          (run_call).mpr ⟨choice, before, reply, middle, rfl, responded, ran⟩, next⟩
      · rintro ⟨before, after, value, later, rfl, ran, next⟩
        rcases (run_call).mp ran with ⟨choice, before, reply, middle, rfl, responded, ran⟩
        exact ⟨choice, before ++ after, reply, middle, rfl, responded,
          (induction reply).mpr ⟨before, after, value, later, rfl, ran, next⟩⟩

/-- How a program ends is decided by the choices that its run uses up. -/
theorem run_unique {program : Program Call Reply α} {first : State} {result result' : α × State}
    {used used' later later' : List Choice}
    (ran : program.run environment first used = some result)
    (ran' : program.run environment first used' = some result')
    (same : used ++ later = used' ++ later') : result = result' := by
  induction program generalizing first used used' with
  | done value =>
      rcases result with ⟨value, last⟩
      rcases result' with ⟨value', last'⟩
      rcases (run_done).mp ran with ⟨_, rfl, rfl⟩
      rcases (run_done).mp ran' with ⟨_, rfl, rfl⟩
      rfl
  | call c next induction =>
      rcases (run_call).mp ran with ⟨choice, rest, reply, middle, rfl, responded, ran⟩
      rcases (run_call).mp ran' with ⟨choice', rest', reply', middle', rfl, responded', ran'⟩
      rcases List.cons.inj same with ⟨rfl, others⟩
      rw [responded] at responded'
      cases responded'
      exact induction reply ran ran' others

/-- Where some choice of a kind is always possible, every program has a run under such
choices. -/
theorem exists_run (program : Program Call Reply α) (first : State) (kind : Choice → Prop)
    (responds : ∀ state c, ∃ choice reply next,
      environment state c choice = some (reply, next) ∧ kind choice) :
    ∃ choices result last, program.run environment first choices = some (result, last) ∧
      ∀ choice ∈ choices, kind choice := by
  induction program generalizing first with
  | done value => exact ⟨[], value, first, rfl, fun _ member => nomatch member⟩
  | call c next induction =>
      rcases responds first c with ⟨choice, reply, middle, responded, isKind⟩
      rcases induction reply middle with ⟨choices, result, last, ran, kinds⟩
      exact ⟨choice :: choices, result, last,
        (run_call).mpr ⟨choice, choices, reply, middle, rfl, responded, ran⟩,
        List.forall_mem_cons.mpr ⟨isKind, kinds⟩⟩

/-! ## The calls a program makes -/

/-- Every call that the program makes, whatever the replies, is of a kind, and every value
it returns meets a condition. -/
def Calls (kind : Call → Prop) (post : α → Prop) : Program Call Reply α → Prop
  | .done value => post value
  | .call c next => kind c ∧ ∀ reply, (next reply).Calls kind post

variable {kind : Call → Prop} {post : α → Prop}

theorem Calls.bind {program : Program Call Reply α} {next : α → Program Call Reply β}
    {last : β → Prop} (calls : program.Calls kind post)
    (others : ∀ value, post value → (next value).Calls kind last) :
    (program >>= next).Calls kind last := by
  induction program with
  | done value => exact others value calls
  | call c rest induction => exact ⟨calls.1, fun reply => induction reply (calls.2 reply)⟩

theorem Calls.mono {program : Program Call Reply α} (calls : program.Calls kind post)
    {wider : Call → Prop} {weaker : α → Prop} (kinds : ∀ c, kind c → wider c)
    (values : ∀ value, post value → weaker value) : program.Calls wider weaker := by
  induction program with
  | done value => exact values value calls
  | call c next induction =>
      exact ⟨kinds c calls.1, fun reply => induction reply (calls.2 reply)⟩

/-- The calls of a program whose values do not matter. -/
theorem Calls.anyway {program : Program Call Reply α} (calls : program.Calls kind post) :
    program.Calls kind fun _ => True :=
  calls.mono (fun _ allowed => allowed) fun _ _ => trivial

theorem calls_perform {c : Call} (allowed : kind c) :
    (perform c : Program Call Reply (Reply c)).Calls kind fun _ => True :=
  ⟨allowed, fun _ => trivial⟩

/-- The invariant rule: what every call of the program's kinds preserves holds at the end
of its runs. -/
theorem Calls.invariant {program : Program Call Reply α} (calls : program.Calls kind post)
    (Invariant : State → Prop)
    (preserved : ∀ state c choice reply next, kind c → Invariant state →
      environment state c choice = some (reply, next) → Invariant next)
    {first last : State} {choices : List Choice} {result : α}
    (ran : program.run environment first choices = some (result, last))
    (initially : Invariant first) : Invariant last ∧ post result := by
  induction program generalizing first choices with
  | done value =>
      rcases (run_done).mp ran with ⟨_, rfl, rfl⟩
      exact ⟨initially, calls⟩
  | call c next induction =>
      rcases (run_call).mp ran with ⟨choice, rest, reply, middle, _, responded, ran⟩
      exact induction reply (calls.2 reply) ran
        (preserved first c choice reply middle calls.1 initially responded)

/-- The simulation rule: if the calls of the program's kinds get the same reply in related
states, and leave related states, then so do its runs. -/
theorem Calls.simulate {program : Program Call Reply α} (calls : program.Calls kind post)
    (Related : State → State → Prop)
    (preserved : ∀ left right c choice reply left', kind c → Related left right →
      environment left c choice = some (reply, left') →
      ∃ right', environment right c choice = some (reply, right') ∧ Related left' right')
    {left right left' : State} {choices : List Choice} {result : α}
    (ran : program.run environment left choices = some (result, left'))
    (related : Related left right) :
    ∃ right', program.run environment right choices = some (result, right') ∧
      Related left' right' := by
  induction program generalizing left right choices with
  | done value =>
      rcases (run_done).mp ran with ⟨rfl, rfl, rfl⟩
      exact ⟨right, rfl, related⟩
  | call c next induction =>
      rcases (run_call).mp ran with ⟨choice, rest, reply, middle, rfl, responded, ran⟩
      rcases preserved left right c choice reply middle calls.1 related responded with
        ⟨middle', responded', related'⟩
      rcases induction reply (calls.2 reply) ran related' with ⟨right', ran', related''⟩
      exact ⟨right', (run_call).mpr ⟨choice, rest, reply, middle', rfl, responded', ran'⟩, related''⟩

/-! ## The call that comes next -/

variable (environment) in
/-- The call that the program makes after the choices. -/
def nextCall : Program Call Reply α → State → List Choice → Option Call
  | .done _, _, _ => none
  | .call c _, _, [] => some c
  | .call c next, state, choice :: choices =>
      match environment state c choice with
      | none => none
      | some (reply, state) => (next reply).nextCall state choices

theorem nextCall_cons {asked : Call} {next : Reply asked → Program Call Reply α} {first : State}
    {choice : Choice} {choices : List Choice} {c : Call} :
    (Program.call asked next).nextCall environment first (choice :: choices) = some c ↔
      ∃ reply middle, environment first asked choice = some (reply, middle) ∧
        (next reply).nextCall environment middle choices = some c := by
  rw [nextCall]
  cases environment first asked choice with
  | none => simp
  | some answer =>
      rcases answer with ⟨reply, middle⟩
      constructor
      · exact fun comes => ⟨reply, middle, rfl, comes⟩
      · rintro ⟨_, _, same, comes⟩
        cases same
        exact comes

/-- The next call of a sequence is one of its first part or one of the rest. -/
theorem nextCall_bind {program : Program Call Reply α} {next : α → Program Call Reply β}
    {first : State} {choices : List Choice} {c : Call} :
    (program >>= next).nextCall environment first choices = some c ↔
      program.nextCall environment first choices = some c ∨
        ∃ before after value middle, choices = before ++ after ∧
          program.run environment first before = some (value, middle) ∧
          (next value).nextCall environment middle after = some c := by
  induction program generalizing first choices with
  | done value =>
      rw [done_bind]
      constructor
      · intro comes
        exact .inr ⟨[], choices, value, first, rfl, (run_done).mpr ⟨rfl, rfl, rfl⟩, comes⟩
      · rintro (none | ⟨before, after, value', middle, rfl, ran, comes⟩)
        · cases none
        · rcases (run_done).mp ran with ⟨rfl, rfl, rfl⟩
          exact comes
  | call asked rest induction =>
      rw [call_bind]
      cases choices with
      | nil =>
          refine ⟨.inl, fun either => either.elim id ?_⟩
          rintro ⟨before, after, value, middle, parts, ran, _⟩
          rcases List.append_eq_nil_iff.mp parts.symm with ⟨rfl, rfl⟩
          cases ran
      | cons choice choices =>
          cases responded : environment first asked choice with
          | none =>
              simp only [nextCall, responded]
              refine ⟨fun comes => (nomatch comes), fun either => either.elim id ?_⟩
              rintro ⟨before, after, value, middle, parts, ran, _⟩
              rcases (run_call).mp ran with ⟨_, _, reply, _, rfl, answered, _⟩
              cases parts
              rw [responded] at answered
              contradiction
          | some answer =>
              rcases answer with ⟨reply, state⟩
              simp only [nextCall, responded]
              rw [induction reply]
              constructor
              · rintro (comes | ⟨before, after, value, middle, rfl, ran, comes⟩)
                · exact .inl comes
                · exact .inr ⟨choice :: before, after, value, middle, rfl,
                    (run_call).mpr ⟨choice, before, reply, state, rfl, responded, ran⟩, comes⟩
              · rintro (comes | ⟨before, after, value, middle, parts, ran, comes⟩)
                · exact .inl comes
                · rcases (run_call).mp ran with ⟨_, others, reply', state', rfl, answered, ran⟩
                  cases parts
                  rw [responded] at answered
                  cases answered
                  exact .inr ⟨others, after, value, middle, rfl, ran, comes⟩

/-- The next call is of the program's kinds. -/
theorem Calls.nextCall {program : Program Call Reply α} (calls : program.Calls kind post)
    {first : State} {choices : List Choice} {c : Call}
    (comes : program.nextCall environment first choices = some c) : kind c := by
  induction program generalizing first choices with
  | done value => cases comes
  | call asked next induction =>
      cases choices with
      | nil =>
          cases comes
          exact calls.1
      | cons choice choices =>
          rw [Program.nextCall] at comes
          split at comes
          · contradiction
          · rename_i reply state _
            exact induction reply (calls.2 reply) comes

/-! ## The steps of a run -/

variable (environment) in
/-- Each call of a run, with the state in which it is made and the choice. -/
def steps : Program Call Reply α → State → List Choice → List (State × Call × Choice)
  | .done _, _, _ => []
  | .call _ _, _, [] => []
  | .call c next, state, choice :: choices =>
      (state, c, choice) ::
        match environment state c choice with
        | none => []
        | some (reply, state) => (next reply).steps state choices

theorem steps_call {c : Call} {next : Reply c → Program Call Reply α} {first middle : State}
    {choice : Choice} {choices : List Choice} {reply : Reply c}
    (responded : environment first c choice = some (reply, middle)) :
    (Program.call c next).steps environment first (choice :: choices) =
      (first, c, choice) :: (next reply).steps environment middle choices := by
  rw [steps, responded]

theorem steps_cons {c : Call} {next : Reply c → Program Call Reply α} {first middle : State}
    {choice : Choice} {choices : List Choice} {reply : Reply c}
    {trace : List (State × Call × Choice)}
    (responded : environment first c choice = some (reply, middle))
    (traced : (Program.call c next).steps environment first (choice :: choices) = trace) :
    ∃ later, trace = (first, c, choice) :: later ∧
      (next reply).steps environment middle choices = later :=
  ⟨_, traced.symm.trans (steps_call responded), rfl⟩

theorem steps_bind {program : Program Call Reply α} {next : α → Program Call Reply β} {value : α}
    {first middle : State} {before after : List Choice}
    (ran : program.run environment first before = some (value, middle)) :
    (program >>= next).steps environment first (before ++ after) =
      program.steps environment first before ++ (next value).steps environment middle after := by
  induction program generalizing first before with
  | done result =>
      rcases (run_done).mp ran with ⟨rfl, rfl, rfl⟩
      rfl
  | call c rest induction =>
      rcases (run_call).mp ran with ⟨choice, others, reply, state, rfl, responded, ran⟩
      rw [call_bind, List.cons_append, steps_call responded, steps_call responded, induction reply ran]
      rfl

/-- Every step of a run is a call of the program's kinds. -/
theorem Calls.steps {program : Program Call Reply α} (calls : program.Calls kind post)
    {first : State} {choices : List Choice} {step : State × Call × Choice}
    (member : step ∈ program.steps environment first choices) : kind step.2.1 := by
  induction program generalizing first choices with
  | done value => simp [Program.steps] at member
  | call c next induction =>
      cases choices with
      | nil => simp [Program.steps] at member
      | cons choice choices =>
          rw [Program.steps] at member
          rcases List.mem_cons.mp member with rfl | later
          · exact calls.1
          · split at later
            · simp at later
            · rename_i reply state _
              exact induction reply (calls.2 reply) later

/-- Between the first and the last state of a run something is kept, and a relation holds
exactly if every step meets a guard. -/
def Exact (environment : Environment Call Reply State Choice) (Keeps Good : State → State → Prop)
    (guard : State × Call × Choice → Prop) (post : α → Prop) (program : Program Call Reply α) :
    Prop :=
  ∀ first choices value last, program.run environment first choices = some (value, last) →
    post value ∧ Keeps first last ∧
      (Good first last ↔ ∀ step ∈ program.steps environment first choices, guard step)

section Exactness

variable {Keeps Good : State → State → Prop} {guard : State × Call × Choice → Prop}

theorem exact_done (refl : ∀ state, Keeps state state ∧ Good state state) {value : α}
    (holds : post value) :
    Exact environment Keeps Good guard post (.done value : Program Call Reply α) := by
  intro first choices result last ran
  rcases (run_done).mp ran with ⟨rfl, rfl, rfl⟩
  exact ⟨holds, (refl first).1, fun _ _ member => (nomatch member), fun _ => (refl first).2⟩

theorem exact_perform {c : Call}
    (one : ∀ state choice reply next, environment state c choice = some (reply, next) →
      Keeps state next ∧ (Good state next ↔ guard (state, c, choice))) :
    Exact environment Keeps Good guard (fun _ => True)
      (perform c : Program Call Reply (Reply c)) := by
  intro first choices value last ran
  rcases (run_call).mp ran with ⟨choice, rest, reply, middle, rfl, responded, ran⟩
  rcases (run_done).mp ran with ⟨rfl, rfl, rfl⟩
  rcases one first choice reply middle responded with ⟨keeps, good⟩
  refine ⟨trivial, keeps, good.trans ?_⟩
  rw [perform, steps_call responded]
  simp [steps]

/-- The exactness rule: what is exact for the parts of a program is exact for their
sequence. -/
theorem Exact.bind
    (trans : ∀ a b c, Keeps a b → Keeps b c → Keeps a c ∧ (Good a c ↔ Good a b ∧ Good b c))
    {program : Program Call Reply α} (exactly : Exact environment Keeps Good guard post program)
    {next : α → Program Call Reply β} {last : β → Prop}
    (rest : ∀ value, post value → Exact environment Keeps Good guard last (next value)) :
    Exact environment Keeps Good guard last (program >>= next) := by
  intro first choices result final ran
  rcases (run_bind).mp ran with ⟨before, after, value, middle, rfl, ranFirst, ranRest⟩
  rcases exactly _ _ _ _ ranFirst with ⟨holds, keeps, good⟩
  rcases rest value holds _ _ _ _ ranRest with ⟨holds', keeps', good'⟩
  rcases trans _ _ _ keeps keeps' with ⟨keepsAll, goodAll⟩
  refine ⟨holds', keepsAll, ?_⟩
  rw [goodAll, good, good', steps_bind ranFirst, List.forall_mem_append]

end Exactness

/-! ## Programs under observation -/

/-- An observer of a program's calls: what it makes of them, the calls it allows, and the
replies that can come. -/
structure Watch (Call : Type) (Reply : Call → Type) (Seen : Type) where
  after : Seen → (c : Call) → Reply c → Seen
  allowed : Seen → Call → Prop
  possible : (c : Call) → Reply c → Prop

variable {Seen : Type} {watch : Watch Call Reply Seen}

/-- Every call that the program makes is allowed, and every value it returns meets a
condition, by what the observer has seen until then. -/
def Watched (watch : Watch Call Reply Seen) (post : Seen → α → Prop) :
    Seen → Program Call Reply α → Prop
  | seen, .done value => post seen value
  | seen, .call c next => watch.allowed seen c ∧
      ∀ reply, watch.possible c reply → Watched watch post (watch.after seen c reply) (next reply)

variable {post : Seen → α → Prop} {seen : Seen}

theorem Watched.bind {program : Program Call Reply α} {next : α → Program Call Reply β}
    {last : Seen → β → Prop} (watched : program.Watched watch post seen)
    (others : ∀ seen value, post seen value → (next value).Watched watch last seen) :
    (program >>= next).Watched watch last seen := by
  induction program generalizing seen with
  | done value => exact others seen value watched
  | call c rest induction =>
      exact ⟨watched.1, fun reply possible => induction reply (watched.2 reply possible)⟩

theorem Watched.mono {program : Program Call Reply α} (watched : program.Watched watch post seen)
    {weaker : Seen → α → Prop} (values : ∀ seen value, post seen value → weaker seen value) :
    program.Watched watch weaker seen := by
  induction program generalizing seen with
  | done value => exact values seen value watched
  | call c next induction =>
      exact ⟨watched.1, fun reply possible => induction reply (watched.2 reply possible)⟩

end Program

end Kiyomi
