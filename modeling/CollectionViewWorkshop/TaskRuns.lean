import CollectionViewWorkshop.TaskQueues

/-!
Whole runs of tasks and queues: whatever is started, finished and completed in
whatever order, every block is run once, operations on one object never overlap,
and nothing is stuck but what waits for a source or for itself.
-/

namespace CollectionViewWorkshop.TaskRuns

open PartialRuns Tasks TaskLaws TaskQueues Relation

variable {Value Object : Type} [DecidableEq Object]

theorem initial_orderly :
    Orderly (machine : Machine (Queues Value Object) (Event Value Object)).initial := by
  have completed :
      (machine : Machine (Queues Value Object) (Event Value Object)).initial.runtime.Completed 0 :=
    rfl
  refine ⟨⟨?_, ?_, ?_, ?_, ?_, ?_, rfl⟩, ?_, ?_, ?_, ?_, ?_, ?_⟩
  · simp [machine]
  · simp [machine]
  · simp [machine, Runtime.pending]
  · simp [machine]
  · simp [machine]
  · intro index task found
    cases index with
    | zero =>
        cases found
        rfl
    | succ index => simp [machine] at found
  · simp [machine]
  · simp [machine]
  · intro object
    apply gates_congr _ _ _ _ _ (gates_completed _ 0 completed)
    simp [machine, On]
  · simp [machine]
  · intro queue done _ _ task held
    obtain ⟨operation, member, -⟩ := held
    simp [machine] at member
  · simp [machine]

theorem step_orderly (before after : Queues Value Object) (event : Event Value Object)
    (orderly : Orderly before) (taken : step before event = some after) : Orderly after := by
  have consistent := orderly.consistent
  cases event with
  | newSource =>
      cases taken
      exact orderly_runtime before orderly _ (extends_newTask _ _)
        (consistent_source [] _ _ consistent rfl)
  | complete task outcome =>
      simp only [step] at taken
      split at taken <;> cases taken
      rename_i source
      apply orderly_runtime before orderly _ (extends_trySet task outcome _)
      apply consistent_trySet [] task outcome _ consistent
      intro there found
      cases kind : there.kind <;> simp [found, isSource, kind] at source ⊢
  | continueWith task =>
      simp only [step] at taken
      split at taken <;> cases taken
      rename_i known
      exact orderly_runtime before orderly _ (extends_continueWithBlock task _)
        (consistent_continueWithBlock [] task _ consistent known)
  | allOf tasks =>
      simp only [step] at taken
      split at taken <;> cases taken
      rename_i known
      exact orderly_runtime before orderly _ (extends_taskForCompletionOfAllTasks tasks _)
        (consistent_allOf [] tasks _ consistent (by simpa using known))
  | start job =>
      obtain ⟨runtime, started, same⟩ := Option.map_eq_some_iff.mp taken
      cases same
      exact orderly_runtime before orderly _ (extends_start job _ _ started)
        (consistent_start [] job _ _ consistent started)
  | finish continuation answer =>
      have finished : ∃ runtime, finish continuation answer before.runtime = some runtime ∧
          { before with runtime := runtime } = after ∧
            ∀ task, answer = .task task → task < before.runtime.tasks.length := by
        cases answer with
        | value value =>
            obtain ⟨runtime, run, same⟩ := Option.map_eq_some_iff.mp taken
            exact ⟨runtime, run, same, by simp⟩
        | exception exception =>
            obtain ⟨runtime, run, same⟩ := Option.map_eq_some_iff.mp taken
            exact ⟨runtime, run, same, by simp⟩
        | task task =>
            simp only [step] at taken
            split at taken
            · rename_i known
              obtain ⟨runtime, run, same⟩ := Option.map_eq_some_iff.mp taken
              refine ⟨runtime, run, same, fun other equal => ?_⟩
              cases equal
              exact known
            · cases taken
      obtain ⟨runtime, run, same, known⟩ := finished
      cases same
      exact orderly_runtime before orderly _ (extends_finish continuation answer _ _ run)
        (consistent_finish [] continuation answer _ _ consistent known run)
  | settle job =>
      obtain ⟨runtime, settled, same⟩ := Option.map_eq_some_iff.mp taken
      cases same
      exact orderly_runtime before orderly _ (extends_settle job _ _ settled)
        (consistent_settle [] job _ _ consistent settled)
  | enqueue object taskStart =>
      cases taskStart with
      | continuation =>
          cases taken
          exact orderly_enqueue before orderly object _ (by simp)
      | awaited =>
          cases taken
          exact orderly_enqueue before orderly object _ (by simp)
      | other task =>
          simp only [step] at taken
          split at taken <;> cases taken
          rename_i known
          apply orderly_enqueue before orderly object
          intro there same
          cases same
          exact known
  | enqueueForObjects objects =>
      cases taken
      exact orderly_enqueueForObjects before orderly objects
  | enqueueAsync queue =>
      cases taken
      exact orderly_enqueueAsync before orderly queue

theorem orderly_reached (before : List (Event Value Object)) (queues : Queues Value Object)
    (run : machine.Reaches before queues) : Orderly queues :=
  reaches_invariant machine Orderly initial_orderly
    (fun event before after held taken => step_orderly before after event held taken) before queues run

/-- No completion source is set twice. -/
theorem set_once (events : List (Event Value Object)) :
    machine.Throughout (fun queues => queues.runtime.raised = false) events := by
  intro before queues _ run
  exact (orderly_reached before queues run).consistent.unraised

theorem blocks_eq_count (runtime : Runtime Value) (consistent : Consistent [] runtime)
    (continuation awaited : ℕ) (kind : HasKind runtime continuation (.continuation awaited)) :
    runtime.blocks [] continuation = runtime.pending.count (awaited, .block continuation) := by
  rw [Runtime.blocks, Runtime.calls, List.append_nil, List.countP_filter, List.count]
  apply List.countP_congr
  rintro ⟨task, callback⟩ member
  obtain ⟨there, found, fits⟩ := consistent.fits (task, callback) (by simpa using member)
  obtain ⟨waiter, present, held⟩ := kind
  cases callback with
  | block other =>
      rw [beq_iff_eq, Bool.and_eq_true, decide_eq_true_eq]
      constructor
      · rintro ⟨-, equal⟩
        rw [equal, present] at found
        cases found
        simp only [held, Fits] at fits
        rw [fits, ← equal, Callback.target]
      · intro equal
        cases equal
        exact ⟨rfl, rfl⟩
  | setup other => simp [Callback.isBlock]
  | signal other => simp [Callback.isBlock]
  | count other => simp [Callback.isBlock]

theorem continuation_law (runtime : Runtime Value) (consistent : Consistent [] runtime)
    (continuation awaited : ℕ) (kind : HasKind runtime continuation (.continuation awaited)) :
    runtime.pending.count (awaited, .block continuation) +
        runtime.started.count continuation = 1 ∧
      (continuation ∈ runtime.started → runtime.Completed awaited) := by
  rw [← blocks_eq_count runtime consistent continuation awaited kind]
  obtain ⟨task, found, same⟩ := kind
  have law := consistent.lawful continuation task found
  simp only [Lawful, same] at law
  exact law.2

/-- The block of a continuation is run once: it still waits to be run or has been
started, and then only after the task it continues was completed. -/
theorem block_once (events : List (Event Value Object)) :
    machine.Throughout (fun queues => ∀ continuation awaited,
      HasKind queues.runtime continuation (.continuation awaited) →
        queues.runtime.pending.count (awaited, .block continuation) +
            queues.runtime.started.count continuation = 1 ∧
          (continuation ∈ queues.runtime.started → queues.runtime.Completed awaited)) events := by
  intro before queues _ run continuation awaited kind
  exact continuation_law queues.runtime (orderly_reached before queues run).consistent continuation
    awaited kind

/-- What is put into the queue of an object starts after everything that was put
into it before is over, even what was over before its turn. -/
theorem in_turn (events : List (Event Value Object)) :
    machine.Throughout (fun queues => ∀ before operation after,
      queues.operations = before ++ operation :: after →
        ∀ continuation ∈ queues.runtime.started,
          HasKind queues.runtime continuation (.continuation operation.awaits) →
            ∀ earlier ∈ before, ∀ object ∈ operation.objects, object ∈ earlier.objects →
              queues.runtime.Completed earlier.task) events := by
  intro past queues _ run before operation after split continuation started kind
    earlier member object wanted shared
  have orderly := orderly_reached past queues run
  have awaited := (continuation_law queues.runtime orderly.consistent continuation _ kind).2 started
  apply (orderly.gates before operation after split).1 queues.runtime.Completed
    (respects_completed queues.runtime orderly.consistent) (by simpa using awaited)
  exact Or.inl ⟨object, wanted, earlier, member, shared, rfl⟩

/-- When nothing is left to run, an operation was let through exactly if all
operations before it on its objects are over, unless it has an object twice: then
it waits for itself. -/
theorem let_through_iff (events : List (Event Value Object)) :
    machine.Throughout (fun queues => Quiet queues.runtime → ∀ before operation after,
      queues.operations = before ++ operation :: after →
        (queues.runtime.Completed operation.awaits ↔
          (∀ earlier ∈ before, ∀ object ∈ operation.objects, object ∈ earlier.objects →
            queues.runtime.Completed earlier.task) ∧
              (operation.objects.Nodup ∨ queues.runtime.Completed operation.task))) events := by
  intro past queues _ run quiet before operation after split
  have orderly := orderly_reached past queues run
  obtain ⟨down, up⟩ := orderly.gates before operation after split
  have respects := respects_completed queues.runtime orderly.consistent
  have rises := rises_completed queues.runtime orderly.consistent quiet
  constructor
  · intro through
    have all := down queues.runtime.Completed respects (by simpa using through)
    refine ⟨fun earlier member object wanted shared =>
      all _ (Or.inl ⟨object, wanted, earlier, member, shared, rfl⟩), ?_⟩
    by_cases once : operation.objects.Nodup
    · exact Or.inl once
    · exact Or.inr (all _ (Or.inr ⟨once, rfl⟩))
  · rintro ⟨ended, once⟩
    apply up queues.runtime.Completed rises _ operation.awaits (by simp)
    rintro task (⟨object, wanted, earlier, member, shared, same⟩ | ⟨twice, same⟩)
    · rw [same]
      exact ended earlier member object wanted shared
    · rw [same]
      exact once.resolve_left twice

/-- As long as no operation has an object twice the queues do not lock each other:
when nothing is left to run, an operation that is not over comes at or after one
that was let through and is not over itself. -/
theorem never_locked (events : List (Event Value Object)) :
    machine.Throughout (fun queues => Quiet queues.runtime →
      (∀ operation ∈ queues.operations, operation.objects.Nodup) →
        ∀ before operation after, queues.operations = before ++ operation :: after →
          ¬ queues.runtime.Completed operation.task →
            ∃ first ∈ before ++ [operation], queues.runtime.Completed first.awaits ∧
              ¬ queues.runtime.Completed first.task) events := by
  classical
  intro past queues _ run quiet once before operation after split open_
  have orderly := orderly_reached past queues run
  -- the first one that is not over has only operations ahead of it that are
  obtain ⟨first, found⟩ : ∃ first, (before ++ [operation]).find?
      (fun other => ¬ queues.runtime.Completed other.task) = some first := by
    rw [← Option.isSome_iff_exists, List.find?_isSome]
    exact ⟨operation, by simp, by simpa using open_⟩
  obtain ⟨waits, ahead, later, same, ended⟩ := List.find?_eq_some_iff_append.mp found
  have here : queues.operations = ahead ++ first :: (later ++ after) := by
    rw [split, ← List.singleton_append, ← List.append_assoc, same]
    simp
  refine ⟨first, by rw [same]; simp, ?_, by simpa using waits⟩
  have rises := rises_completed queues.runtime orderly.consistent quiet
  apply (orderly.gates ahead first (later ++ after) here).2 queues.runtime.Completed rises _
    first.awaits (by simp)
  rintro task (⟨object, -, earlier, member, -, equal⟩ | ⟨twice, -⟩)
  · rw [equal]
    simpa using ended earlier member
  · exact (twice (once first (by rw [here]; simp))).elim

/-- A task waits for another if one of its callbacks does. -/
def Waits (runtime : Runtime Value) (task other : ℕ) : Prop :=
  ∃ callback, (other, callback) ∈ runtime.callbacks ∧ callback.target = task

theorem waits_open (runtime : Runtime Value) (consistent : Consistent [] runtime)
    (task other : ℕ) (waits : Waits runtime task other) :
    ¬ runtime.Completed task ∧ ¬ runtime.Completed other ∧ other < runtime.tasks.length := by
  obtain ⟨callback, member, target⟩ := waits
  obtain ⟨awaited, present, open_⟩ := consistent.waiting _ member
  obtain ⟨there, found, -⟩ := consistent.fits (other, callback) (by simp [Runtime.pending, member])
  rw [target] at found
  have load : 0 < runtime.load [] task := by
    apply Nat.lt_of_lt_of_le _ (Nat.le_add_right _ _)
    apply List.length_pos_of_mem (a := (other, callback))
    simp [Runtime.calls, Runtime.pending, member, target]
  refine ⟨?_, ?_, (List.getElem?_eq_some_iff.mp present).1⟩
  · intro completed
    have done : there.outcome.isSome = true := by
      simpa [Runtime.Completed, Runtime.outcome, found] using completed
    have law := consistent.lawful task there found
    unfold Lawful at law
    cases kind : there.kind <;> simp only [kind, BFTask.done, done, if_true, true_iff] at law
    all_goals omega
  · simp [Runtime.Completed, Runtime.outcome, present, open_]

theorem open_waits (runtime : Runtime Value) (consistent : Consistent [] runtime)
    (quiet : Quiet runtime) (task : ℕ) (inside : task < runtime.tasks.length)
    (open_ : ¬ runtime.Completed task) (owned : ¬ HasKind runtime task .source) :
    ∃ other, Waits runtime task other := by
  have found := List.getElem?_eq_getElem inside
  have none_ : runtime.tasks[task].outcome = none := by
    simpa [Runtime.Completed, Runtime.outcome, found] using open_
  have law := consistent.lawful task _ found
  have load : runtime.load [] task ≠ 0 := by
    intro zero
    unfold Lawful at law
    cases kind : runtime.tasks[task].kind <;>
      simp only [kind, BFTask.done, none_, zero, Option.isSome_none, Bool.false_eq_true,
        if_false, false_iff] at law
    · exact owned ⟨_, found, kind⟩
    · omega
    · omega
    · omega
    · exact law.2.1 law.1.symm
  obtain ⟨⟨other, callback⟩, member, target, -⟩ := quiet_waits runtime consistent quiet task load
  exact ⟨other, callback, member, target⟩

/-- When nothing is left to run, a task is not completed exactly if it waits, over
whatever other tasks, for a source that was not completed or for a task that waits
for itself. -/
theorem stuck_iff (events : List (Event Value Object)) :
    machine.Throughout (fun queues => Quiet queues.runtime →
      ∀ task < queues.runtime.tasks.length, ¬ queues.runtime.Completed task ↔
        ∃ last, ReflTransGen (Waits queues.runtime) task last ∧
          ((HasKind queues.runtime last .source ∧ ¬ queues.runtime.Completed last) ∨
            TransGen (Waits queues.runtime) last last)) events := by
  classical
  intro past queues _ run quiet task inside
  have consistent := (orderly_reached past queues run).consistent
  constructor
  · intro open_
    by_contra none_
    have free : ∀ last, ReflTransGen (Waits queues.runtime) task last →
        ¬ ((HasKind queues.runtime last .source ∧ ¬ queues.runtime.Completed last) ∨
          TransGen (Waits queues.runtime) last last) :=
      fun last reach stuck => none_ ⟨last, reach, stuck⟩
    let nodes := (List.range queues.runtime.tasks.length).filter fun other =>
      ReflTransGen (Waits queues.runtime) task other ∧ ¬ queues.runtime.Completed other
    have member_iff : ∀ other, other ∈ nodes ↔ other < queues.runtime.tasks.length ∧
        ReflTransGen (Waits queues.runtime) task other ∧
          ¬ queues.runtime.Completed other := by
      simp [nodes]
    obtain ⟨last, member, ends⟩ := Waves.exists_last (Waits queues.runtime) nodes
      (fun node there round => free node ((member_iff node).mp there).2.1 (Or.inr round))
      (List.ne_nil_of_mem ((member_iff task).mpr ⟨inside, ReflTransGen.refl, open_⟩))
    obtain ⟨there, reach, waits⟩ := (member_iff last).mp member
    obtain ⟨next, step⟩ := open_waits queues.runtime consistent quiet last there waits
      fun source => free last reach (Or.inl ⟨source, waits⟩)
    obtain ⟨-, still, bound⟩ := waits_open queues.runtime consistent last next step
    exact ends next ((member_iff next).mpr ⟨bound, reach.tail step, still⟩) step
  · rintro ⟨last, reach, stuck⟩
    have open_ : ¬ queues.runtime.Completed last := by
      rcases stuck with ⟨-, held⟩ | round
      · exact held
      · obtain ⟨next, step, -⟩ := TransGen.head'_iff.mp round
        exact (waits_open queues.runtime consistent last next step).1
    rcases ReflTransGen.cases_head reach with same | ⟨next, step, -⟩
    · rw [same]
      exact open_
    · exact (waits_open queues.runtime consistent task next step).1

/-- The block of an operation of a `PFAsyncTaskQueue` starts after the blocks before
it in its queue are over, with the tasks they answered. -/
theorem async_in_turn (events : List (Event Value Object)) :
    machine.Throughout (fun queues => ∀ before operation after,
      queues.asyncOperations = before ++ operation :: after →
        operation.task ∈ queues.runtime.started → ∀ earlier ∈ before,
          earlier.queue = operation.queue → queues.runtime.Completed earlier.task) events := by
  intro past queues _ run before operation after split started earlier member same
  have orderly := orderly_reached past queues run
  obtain ⟨-, awaited, kind, implies⟩ := orderly.asyncs before operation after split
  have ended := (continuation_law queues.runtime orderly.consistent operation.task awaited kind).2
    started
  exact implies queues.runtime.Completed (respects_completed queues.runtime orderly.consistent)
    (by simpa using ended) _ ⟨earlier, member, same, rfl⟩

/-- What the caller of a `PFAsyncTaskQueue` was given has the outcome of the block,
and gets it. -/
theorem async_outcome (events : List (Event Value Object)) :
    machine.Throughout (fun queues => ∀ operation ∈ queues.asyncOperations,
      (∀ outcome, queues.runtime.outcome operation.source = some outcome →
        queues.runtime.outcome operation.task = some outcome) ∧
          (Quiet queues.runtime → queues.runtime.outcome operation.source =
            queues.runtime.outcome operation.task)) events := by
  intro past queues _ run operation member
  have orderly := orderly_reached past queues run
  obtain ⟨before, after, split⟩ := List.append_of_mem member
  obtain ⟨⟨source, found, kind⟩, -⟩ := orderly.asyncs before operation after split
  have law := orderly.consistent.lawful operation.source source found
  simp only [Lawful, kind] at law
  rw [outcome_of_task queues.runtime _ source found]
  refine ⟨law.2, fun quiet => ?_⟩
  cases done : source.outcome with
  | some outcome => exact (law.2 outcome done).symm
  | none =>
      have load : queues.runtime.load [] operation.source ≠ 0 := by
        have one := law.1
        simp only [BFTask.done, done, Option.isSome_none, Bool.false_eq_true, if_false] at one
        omega
      obtain ⟨⟨awaited, callback⟩, waits, target, open_⟩ := quiet_waits queues.runtime
        orderly.consistent quiet operation.source load
      obtain ⟨there, present, fits⟩ := orderly.consistent.fits (awaited, callback)
        (by simp [Runtime.pending, waits])
      rw [target, found] at present
      cases present
      cases callback <;> simp only [kind, Fits] at fits
      rw [fits] at open_
      cases known : queues.runtime.outcome operation.task with
      | none => rfl
      | some outcome => exact (open_ (by simp [Runtime.Completed, known])).elim

end CollectionViewWorkshop.TaskRuns
