namespace Kiyomi

/-! # Runs of labelled step functions

A system is given by a partial deterministic step function on states. The
actions carry every choice of the environment, so quantifying over lists of
actions quantifies over all interleavings. -/

/-- One step under a labelled action; `none` when the action is not enabled. -/
abbrev StepFunction (State : Type u) (Action : Type v) := State → Action → Option State

/-- A finite run whose every action satisfies `guard` in the state where it is
taken. Unrestricted runs use the guard that is always true. -/
inductive Run {State : Type u} {Action : Type v} (step : StepFunction State Action)
    (guard : State → Action → Prop) : State → List Action → State → Prop
  | nil (state) : Run step guard state [] state
  | cons {first middle last action actions} (allowed : guard first action)
      (taken : step first action = some middle)
      (rest : Run step guard middle actions last) :
      Run step guard first (action :: actions) last

namespace Run

variable {State : Type u} {Action : Type v} {step : StepFunction State Action}
  {guard weaker : State → Action → Prop}

/-- Execute a list of actions; the execution stops at the first one that is
disabled or not permitted. -/
def execute (step : StepFunction State Action) (permits : State → Action → Bool) :
    State → List Action → Option State
  | state, [] => some state
  | state, action :: actions =>
      if permits state action then
        match step state action with
        | none => none
        | some next => execute step permits next actions
      else none

theorem ofExecute {permits : State → Action → Bool} {first last : State}
    {actions : List Action} (executed : execute step permits first actions = some last) :
    Run step (fun state action => permits state action = true) first actions last := by
  induction actions generalizing first with
  | nil =>
      cases executed
      exact .nil _
  | cons action actions induction =>
      rw [execute] at executed
      split at executed
      · rename_i permitted
        cases taken : step first action with
        | none => simp [taken] at executed
        | some middle =>
            simp only [taken] at executed
            exact .cons permitted taken (induction executed)
      · contradiction

theorem weaken {first last : State} {actions : List Action}
    (run : Run step guard first actions last)
    (implies : ∀ state action, guard state action → weaker state action) :
    Run step weaker first actions last := by
  induction run with
  | nil state => exact .nil state
  | cons allowed taken _ induction => exact .cons (implies _ _ allowed) taken induction

/-- The guard may ask for membership in the list of actions. -/
theorem members {first last : State} {actions : List Action}
    (run : Run step guard first actions last) :
    Run step (fun state action => guard state action ∧ action ∈ actions) first actions last := by
  induction run with
  | nil state => exact .nil state
  | cons allowed taken _ induction =>
      apply Run.cons ⟨allowed, List.mem_cons_self⟩ taken
      exact induction.weaken fun _ _ permitted =>
        ⟨permitted.1, List.mem_cons_of_mem _ permitted.2⟩

theorem append {first middle last : State} {left right : List Action}
    (leftRun : Run step guard first left middle)
    (rightRun : Run step guard middle right last) :
    Run step guard first (left ++ right) last := by
  induction leftRun with
  | nil => exact rightRun
  | cons allowed taken _ induction => exact .cons allowed taken (induction rightRun)

/-- The invariant rule: what every guarded step preserves holds at the end of
every guarded run that starts in it. -/
theorem invariant (Invariant : State → Prop)
    (preserved : ∀ state action next, guard state action → Invariant state →
      step state action = some next → Invariant next)
    {first last : State} {actions : List Action}
    (run : Run step guard first actions last) (initially : Invariant first) :
    Invariant last := by
  induction run with
  | nil => exact initially
  | cons allowed taken _ induction => exact induction (preserved _ _ _ allowed initially taken)

/-- The termination rule: where every guarded step lowers a measure, a run is no longer
than the measure allows. -/
theorem length_le (Invariant : State → Prop) (measure : State → Nat)
    (lowers : ∀ state action next, guard state action → Invariant state →
      step state action = some next → Invariant next ∧ measure next < measure state)
    {first last : State} {actions : List Action}
    (run : Run step guard first actions last) (initially : Invariant first) :
    Invariant last ∧ actions.length + measure last ≤ measure first := by
  induction run with
  | nil state => exact ⟨initially, by simp⟩
  | cons allowed taken _ induction =>
      have lower := lowers _ _ _ allowed initially taken
      have later := induction lower.1
      refine ⟨later.1, ?_⟩
      rw [List.length_cons]
      omega

/-- The refinement rule for logs. If each step leaves the view of the state and its
log alone, or logs an entry and changes the view as the entry says, then the view is
the replay of the log, newest entry first. -/
theorem replays {View : Type w} {Entry : Type x} (view : State → View)
    (log : State → List Entry) (apply : Entry → View → View) (start : View)
    (commits : ∀ state action next, guard state action → step state action = some next →
      view next = view state ∧ log next = log state ∨
      ∃ entry, log next = entry :: log state ∧ view next = apply entry (view state))
    {first last : State} {actions : List Action} (run : Run step guard first actions last)
    (initially : view first = (log first).foldr apply start) :
    view last = (log last).foldr apply start := by
  apply run.invariant fun state => view state = (log state).foldr apply start
  · intro state action next allowed replayed taken
    rcases commits state action next allowed taken with ⟨sameView, sameLog⟩ | ⟨entry, log, view⟩
    · rw [sameView, sameLog, replayed]
    · rw [view, log, List.foldr_cons, replayed]
  · exact initially

/-- A property of every state on the way along a list of actions. -/
def Throughout (step : StepFunction State Action) (Good : State → Prop) :
    State → List Action → Prop
  | state, [] => Good state
  | state, action :: actions =>
      Good state ∧ ∀ next, step state action = some next → Throughout step Good next actions

/-- The exactness rule: if a step from an invariant state keeps the invariant when it is
permitted and otherwise leaves a bad state, then every state of a run is good exactly when
every step of it is permitted. -/
theorem throughout_iff (Invariant : State → Prop) {Good : State → Prop}
    (good : ∀ state, Invariant state → Good state)
    (exact : ∀ state action next, Invariant state → step state action = some next →
      (guard state action → Invariant next) ∧ (Good next → guard state action))
    {first last : State} {actions : List Action}
    (run : Run step (fun _ _ => True) first actions last) (initially : Invariant first) :
    Throughout step Good first actions ↔ Run step guard first actions last := by
  induction run with
  | nil state => exact ⟨fun _ => .nil state, fun _ => good state initially⟩
  | @cons first middle last action actions _ taken _ induction =>
      have exactly := exact first action middle initially taken
      constructor
      · intro throughout
        have later := throughout.2 middle taken
        have goodNext : Good middle := by
          cases actions with
          | nil => exact later
          | cons next others => exact later.1
        have allowed := exactly.2 goodNext
        exact .cons allowed taken ((induction (exactly.1 allowed)).mp later)
      · intro guarded
        cases guarded with
        | cons allowed taken' rest =>
            rw [taken] at taken'
            cases taken'
            refine ⟨good first initially, fun next same => ?_⟩
            rw [taken] at same
            cases same
            exact (induction (exactly.1 allowed)).mpr rest

end Run

/-! ## Runs of labelled relations -/

/-- A run of a relation between states, with the events that it shows. -/
inductive Trace {State : Type u} {Event : Type v} (step : State → Event → State → Prop) :
    State → List Event → State → Prop
  | nil (state) : Trace step state [] state
  | cons {first middle last event events} (taken : step first event middle)
      (rest : Trace step middle events last) : Trace step first (event :: events) last

/-- The simulation rule: where a relation follows every step of another one, from related
states to related ones, it follows every run, event by event. -/
theorem Trace.simulate {State : Type u} {View : Type w} {Event : Type v}
    {step : State → Event → State → Prop} {follow : View → Event → View → Prop}
    {kind : Event → Prop} (Related : State → View → Prop)
    (follows : ∀ state event next view, kind event → Related state view → step state event next →
      ∃ view', follow view event view' ∧ Related next view')
    {first last : State} {events : List Event} (run : Trace step first events last)
    (kinds : ∀ event ∈ events, kind event) {view : View} (related : Related first view) :
    ∃ view', Trace follow view events view' ∧ Related last view' := by
  induction run generalizing view with
  | nil => exact ⟨view, .nil view, related⟩
  | @cons first middle last event events taken _ induction =>
      have isKind := kinds event List.mem_cons_self
      rcases follows first event middle view isKind related taken with ⟨view₁, followed, related₁⟩
      have others : ∀ event ∈ events, kind event :=
        fun event member => kinds event (List.mem_cons_of_mem _ member)
      rcases induction others related₁ with ⟨view', rest, related'⟩
      exact ⟨view', .cons followed rest, related'⟩

/-! ## One process of a pool -/

/-- The process at a position with its left and right neighbours. -/
def focus : Nat → List Process → Option (List Process × Process × List Process)
  | _, [] => none
  | 0, process :: after => some ([], process, after)
  | position + 1, other :: processes =>
      (focus position processes).map fun (before, process, after) =>
        (other :: before, process, after)

theorem focus_eq {position : Nat} {pool before after : List Process} {process : Process}
    (focused : focus position pool = some (before, process, after)) :
    pool = before ++ process :: after := by
  induction pool generalizing position before with
  | nil => simp [focus] at focused
  | cons other processes induction =>
      cases position with
      | zero =>
          cases focused
          rfl
      | succ position =>
          rcases Option.map_eq_some_iff.mp focused with ⟨⟨left, found, right⟩, inner, same⟩
          cases same
          rw [induction inner]
          rfl

theorem focus_length {Process : Type u} (before after : List Process) (process : Process) :
    focus before.length (before ++ process :: after) = some (before, process, after) := by
  induction before with
  | nil => rfl
  | cons other before induction => simp [focus, induction]

end Kiyomi
