import Mathlib.Data.List.Basic
import Mathlib.Data.List.Infix

/-!
Runs of a machine whose step may refuse an event. An interleaving is a list
of events; a law about "every state of every interleaving" is `Throughout`,
and a condition on the steps that are actually taken is `EachStep`. The
history handed to a step condition is the list of events before that step.
-/

namespace CollectionViewWorkshop.PartialRuns

universe u v w x
variable {State : Type u} {Event : Type v}

structure Machine (State : Type u) (Event : Type v) where
  initial : State
  step : State → Event → Option State

def Machine.runFrom (machine : Machine State Event) : State → List Event → Option State
  | state, [] => some state
  | state, event :: rest =>
      (machine.step state event).bind fun next => machine.runFrom next rest

def Machine.Reaches (machine : Machine State Event) (events : List Event)
    (state : State) : Prop :=
  machine.runFrom machine.initial events = some state

def Machine.Reachable (machine : Machine State Event) (state : State) : Prop :=
  ∃ events, machine.Reaches events state

def Machine.Throughout (machine : Machine State Event) (law : State → Prop)
    (events : List Event) : Prop :=
  ∀ before state, before <+: events → machine.Reaches before state → law state

def Machine.EachStep (machine : Machine State Event)
    (condition : List Event → State → Event → Prop) (events : List Event) : Prop :=
  ∀ before event state next, before ++ [event] <+: events →
    machine.Reaches before state → machine.step state event = some next →
      condition before state event

theorem runFrom_append (machine : Machine State Event) (state : State)
    (first second : List Event) :
    machine.runFrom state (first ++ second) =
      (machine.runFrom state first).bind fun middle => machine.runFrom middle second := by
  induction first generalizing state with
  | nil => rfl
  | cons event rest ih =>
      simp only [List.cons_append, Machine.runFrom, Option.bind_assoc]
      exact Option.bind_congr fun next _ => ih next

theorem reaches_nil_iff (machine : Machine State Event) (state : State) :
    machine.Reaches [] state ↔ state = machine.initial := by
  simp [Machine.Reaches, Machine.runFrom, eq_comm]

theorem reaches_snoc_iff (machine : Machine State Event) (events : List Event)
    (event : Event) (state : State) :
    machine.Reaches (events ++ [event]) state ↔
      ∃ middle, machine.Reaches events middle ∧ machine.step middle event = some state := by
  simp [Machine.Reaches, runFrom_append, Machine.runFrom, Option.bind_eq_some_iff]

theorem reachable_initial (machine : Machine State Event) :
    machine.Reachable machine.initial :=
  ⟨[], rfl⟩

theorem reachable_step (machine : Machine State Event) (event : Event)
    (before after : State) (reached : machine.Reachable before)
    (taken : machine.step before event = some after) : machine.Reachable after := by
  obtain ⟨events, run⟩ := reached
  exact ⟨events ++ [event], (reaches_snoc_iff machine events event after).mpr
    ⟨before, run, taken⟩⟩

theorem prefix_snoc_iff (before events : List Event) (event : Event) :
    before <+: events ++ [event] ↔ before <+: events ∨ before = events ++ [event] := by
  rw [List.prefix_concat_iff, or_comm]

theorem reaches_invariant (machine : Machine State Event) (inv : State → Prop)
    (start : inv machine.initial)
    (keep : ∀ event before after, inv before →
      machine.step before event = some after → inv after)
    (events : List Event) (state : State) (run : machine.Reaches events state) :
    inv state := by
  induction events using List.reverseRecOn generalizing state with
  | nil =>
      rw [(reaches_nil_iff machine state).mp run]
      exact start
  | append_singleton events event ih =>
      obtain ⟨middle, reached, taken⟩ := (reaches_snoc_iff machine events event state).mp run
      exact keep event middle state (ih middle reached) taken

theorem reachable_invariant (machine : Machine State Event) (inv : State → Prop)
    (start : inv machine.initial)
    (keep : ∀ event before after, inv before →
      machine.step before event = some after → inv after)
    (state : State) (reached : machine.Reachable state) : inv state := by
  obtain ⟨events, run⟩ := reached
  exact reaches_invariant machine inv start keep events state run

theorem throughout_snoc_iff (machine : Machine State Event) (law : State → Prop)
    (events : List Event) (event : Event) :
    machine.Throughout law (events ++ [event]) ↔
      machine.Throughout law events ∧
        ∀ state, machine.Reaches (events ++ [event]) state → law state := by
  constructor
  · intro all
    constructor
    · intro before state inside run
      exact all before state (inside.trans (List.prefix_append events [event])) run
    · intro state run
      exact all _ state (List.prefix_refl _) run
  · rintro ⟨earlier, last⟩ before state inside run
    rcases (prefix_snoc_iff before events event).mp inside with old | same
    · exact earlier before state old run
    · subst same
      exact last state run

theorem eachStep_snoc_iff (machine : Machine State Event)
    (condition : List Event → State → Event → Prop) (events : List Event) (event : Event) :
    machine.EachStep condition (events ++ [event]) ↔
      machine.EachStep condition events ∧
        ∀ state next, machine.Reaches events state →
          machine.step state event = some next → condition events state event := by
  constructor
  · intro all
    constructor
    · intro before taken state next inside
      exact all before taken state next (inside.trans (List.prefix_append events [event]))
    · intro state next
      exact all events event state next (List.prefix_refl _)
  · rintro ⟨earlier, last⟩ before taken state next inside
    rcases (prefix_snoc_iff _ events event).mp inside with old | same
    · exact earlier before taken state next old
    · obtain ⟨rfl, rfl⟩ := List.append_singleton_inj.mp same
      exact last state next

theorem eachStep_of_all (machine : Machine State Event)
    (condition : List Event → State → Event → Prop) (events : List Event)
    (all : ∀ event ∈ events, ∀ before state, condition before state event) :
    machine.EachStep condition events := by
  intro before event state next inside _ _
  exact all event (inside.subset (by simp)) before state

/-- If a law that holds before a step holds after it exactly when the step
meets its condition, then it holds in every state of a run exactly when every
step of the run meets the condition. -/
theorem throughout_iff_eachStep (machine : Machine State Event) (law : State → Prop)
    (condition : List Event → State → Event → Prop) (start : law machine.initial)
    (exact : ∀ events event before after, machine.Reaches events before → law before →
      machine.step before event = some after → (law after ↔ condition events before event))
    (events : List Event) :
    machine.Throughout law events ↔ machine.EachStep condition events := by
  induction events using List.reverseRecOn with
  | nil =>
      constructor
      · intro _ before event state next inside
        simp at inside
      · intro _ before state inside run
        rw [List.prefix_nil.mp inside, reaches_nil_iff] at run
        exact run ▸ start
  | append_singleton events event ih =>
      rw [throughout_snoc_iff, eachStep_snoc_iff, ih]
      apply and_congr_right
      intro met
      -- the induction gives the law up to the last step, where `exact` applies
      have before : ∀ state, machine.Reaches events state → law state :=
        fun state => ih.mpr met events state (List.prefix_refl _)
      constructor
      · intro last state next run taken
        have after := last next ((reaches_snoc_iff machine events event next).mpr
          ⟨state, run, taken⟩)
        exact (exact events event state next run (before state run) taken).mp after
      · intro last next run
        obtain ⟨state, reached, taken⟩ := (reaches_snoc_iff machine events event next).mp run
        exact (exact events event state next reached (before state reached) taken).mpr
          (last state next reached taken)

/-- A law that each step meeting its condition keeps holds in every state of such a run. -/
theorem throughout_of_eachStep (machine : Machine State Event) (law : State → Prop)
    (condition : List Event → State → Event → Prop) (start : law machine.initial)
    (keep : ∀ events event before after, law before → condition events before event →
      machine.step before event = some after → law after)
    (events : List Event) (met : machine.EachStep condition events) :
    machine.Throughout law events := by
  induction events using List.reverseRecOn with
  | nil =>
      intro before state inside run
      rw [List.prefix_nil.mp inside, reaches_nil_iff] at run
      exact run ▸ start
  | append_singleton events event ih =>
      obtain ⟨earlier, last⟩ := (eachStep_snoc_iff machine condition events event).mp met
      have all := ih earlier
      refine (throughout_snoc_iff machine law events event).mpr ⟨all, ?_⟩
      intro next run
      obtain ⟨state, reached, taken⟩ := (reaches_snoc_iff machine events event next).mp run
      exact keep events event state next (all events state (List.prefix_refl _) reached)
        (last state next reached taken) taken

variable {AbstractState : Type w} {AbstractEvent : Type x}

/-- Each concrete step is matched by the abstract step of the event it stands
for, or leaves the abstract state alone when it stands for none. -/
structure Refinement (concrete : Machine State Event)
    (abstract : Machine AbstractState AbstractEvent) where
  view : State → AbstractState
  inv : State → Prop
  start : view concrete.initial = abstract.initial
  invStart : inv concrete.initial
  invKeep : ∀ event before after, inv before →
    concrete.step before event = some after → inv after
  matched : ∀ event before after, inv before → concrete.step before event = some after →
    view after = view before ∨ ∃ shown, abstract.step (view before) shown = some (view after)

-- The invariant is carried along because `matched` may use it.
theorem Refinement.reachable {concrete : Machine State Event}
    {abstract : Machine AbstractState AbstractEvent} (refines : Refinement concrete abstract)
    (state : State) (reached : concrete.Reachable state) :
    abstract.Reachable (refines.view state) := by
  have both := reachable_invariant concrete
    (fun state => refines.inv state ∧ abstract.Reachable (refines.view state))
    ⟨refines.invStart, refines.start ▸ reachable_initial abstract⟩
    (fun event before after held taken => by
      refine ⟨refines.invKeep event before after held.1 taken, ?_⟩
      rcases refines.matched event before after held.1 taken with same | ⟨shown, step⟩
      · rw [same]
        exact held.2
      · exact reachable_step abstract shown _ _ held.2 step)
    state reached
  exact both.2

end CollectionViewWorkshop.PartialRuns
