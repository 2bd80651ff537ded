import CollectionViewWorkshop.PartialRuns
import CollectionViewWorkshop.TaskLaws
import CollectionViewWorkshop.Waves
import Mathlib.Logic.Function.Basic

/-!
`PFTaskQueue` with `_enqueue:forObjects:` of `PFObject`, and `PFAsyncTaskQueue`,
over the tasks they are made of. There is a queue of either kind for each
object. A queue that has no tail yet waits for task 0, which is completed. The
locks of all queues concerned are held while an operation is put into them, so
doing that is one step; so is what the dispatch queue of a `PFAsyncTaskQueue`
does for an operation.
-/

namespace CollectionViewWorkshop.TaskQueues

open PartialRuns Tasks TaskLaws

variable {Value Object : Type} [DecidableEq Object]

/-- An operation waits for the task `awaits` and is over with its `task`. -/
structure Operation (Object : Type) where
  objects : List Object
  awaits : ℕ
  task : ℕ

structure AsyncOperation (Object : Type) where
  queue : Object
  task : ℕ
  source : ℕ

structure Queues (Value Object : Type) where
  runtime : Runtime Value
  tails : Object → ℕ
  operations : List (Operation Object)
  asyncTails : Object → ℕ
  asyncOperations : List (AsyncOperation Object)

/-- The task that `taskStart` returns: a continuation of the one it is to
await, that one itself, or any other. -/
inductive TaskStart where
  | continuation
  | awaited
  | other (task : ℕ)

inductive Event (Value Object : Type) where
  | newSource
  | complete (task : ℕ) (outcome : Outcome Value)
  | continueWith (task : ℕ)
  | allOf (tasks : List ℕ)
  | start (job : ℕ)
  | finish (continuation : ℕ) (answer : Answer Value)
  | settle (job : ℕ)
  | enqueue (object : Object) (taskStart : TaskStart)
  | enqueueForObjects (objects : List Object)
  | enqueueAsync (queue : Object)

def extendTail (object : Object) (task : ℕ) (queues : Queues Value Object) :
    Queues Value Object :=
  let (tail, runtime) := taskForCompletionOfAllTasks [queues.tails object, task] queues.runtime
  { queues with runtime := runtime, tails := Function.update queues.tails object tail }

def startTask (taskStart : TaskStart) (toAwait : ℕ) (runtime : Runtime Value) :
    ℕ × Runtime Value :=
  match taskStart with
  | .continuation => continueWithBlock toAwait runtime
  | .awaited => (toAwait, runtime)
  | .other task => (task, runtime)

def enqueue (object : Object) (taskStart : TaskStart) (queues : Queues Value Object) :
    Queues Value Object :=
  let oldTail := queues.tails object
  let (task, runtime) := startTask taskStart oldTail queues.runtime
  let queues := extendTail object task { queues with runtime := runtime }
  { queues with operations := queues.operations ++ [⟨[object], oldTail, task⟩] }

/-- The loop of `_enqueue:forObjects:`, with the tasks that go to `childTasks`. -/
def enqueueEach (fullTask : ℕ) : List Object → Queues Value Object → List ℕ × Queues Value Object
  | [], queues => ([], queues)
  | object :: rest, queues =>
      let (childTasks, after) := enqueueEach fullTask rest (extendTail object fullTask queues)
      (queues.tails object :: childTasks, after)

/-- `_enqueue:forObjects:`, with a continuation of `toAwait` for `fullTask`. The
task that completes `readyToStart` is made last. -/
def enqueueForObjects (objects : List Object) (queues : Queues Value Object) :
    Queues Value Object :=
  let readyToStart := queues.runtime.tasks.length
  let waiting := newTask (.new (.signal (readyToStart + 2 + objects.length)) 0) queues.runtime
  let (fullTask, runtime) := continueWithBlock readyToStart waiting
  let (childTasks, queues) := enqueueEach fullTask objects { queues with runtime := runtime }
  let (all, runtime) := taskForCompletionOfAllTasks childTasks queues.runtime
  { queues with
    runtime := addCallback all (.signal readyToStart) runtime
    operations := queues.operations ++ [⟨objects, readyToStart, fullTask⟩] }

/-- `enqueue:` of `PFAsyncTaskQueue`. The outcome of the new tail goes to the source. -/
def enqueueAsync (queue : Object) (queues : Queues Value Object) : Queues Value Object :=
  let (tail, runtime) := continueWithBlock (queues.asyncTails queue) queues.runtime
  let source := runtime.tasks.length
  { queues with
    runtime := addCallback tail (.setup source) (newTask (.new (.forward tail) 0) runtime)
    asyncTails := Function.update queues.asyncTails queue tail
    asyncOperations := queues.asyncOperations ++ [⟨queue, tail, source⟩] }

def isSource (task : BFTask Value) : Bool :=
  match task.kind with
  | .source => true
  | _ => false

def step (queues : Queues Value Object) (event : Event Value Object) :
    Option (Queues Value Object) :=
  let runtime := queues.runtime
  let known := fun task => task < runtime.tasks.length
  let withRuntime := fun runtime => { queues with runtime := runtime }
  match event with
  | .newSource => some (withRuntime (newTask (.new .source 0) runtime))
  | .complete task outcome =>
      if runtime.tasks[task]?.any isSource then some (withRuntime (trySet task outcome runtime).2)
      else none
  | .continueWith task =>
      if known task then some (withRuntime (continueWithBlock task runtime).2) else none
  | .allOf tasks =>
      if tasks.all known then some (withRuntime (taskForCompletionOfAllTasks tasks runtime).2)
      else none
  | .start job => (start job runtime).map withRuntime
  | .finish continuation answer =>
      match answer with
      | .task task =>
          if known task then (finish continuation answer runtime).map withRuntime else none
      | _ => (finish continuation answer runtime).map withRuntime
  | .settle job => (settle job runtime).map withRuntime
  | .enqueue object taskStart =>
      match taskStart with
      | .other task => if known task then some (enqueue object taskStart queues) else none
      | _ => some (enqueue object taskStart queues)
  | .enqueueForObjects objects => some (enqueueForObjects objects queues)
  | .enqueueAsync queue => some (enqueueAsync queue queues)

def machine : Machine (Queues Value Object) (Event Value Object) where
  initial :=
    { runtime := ⟨[.withResult none], [], [], [], [], false⟩
      tails := fun _ => 0
      operations := []
      asyncTails := fun _ => 0
      asyncOperations := [] }
  step := step

/-! Which tasks a task stands for, by the kinds of the tasks alone. -/

def HasKind (runtime : Runtime Value) (index : ℕ) (kind : Kind) : Prop :=
  ∃ task, runtime.tasks[index]? = some task ∧ task.kind = kind

/-- What is done was preceded by what it waits for. -/
structure Respects (runtime : Runtime Value) (done : ℕ → Prop) : Prop where
  continuation : ∀ index awaited, HasKind runtime index (.continuation awaited) →
    done index → done awaited
  signal : ∀ index awaited, HasKind runtime index (.signal awaited) → done index → done awaited
  allOf : ∀ index awaited, HasKind runtime index (.allOf awaited) → done index →
    ∀ task ∈ awaited, done task

/-- What only waits for what is done is done too. -/
structure Rises (runtime : Runtime Value) (done : ℕ → Prop) : Prop where
  completed : ∀ index, runtime.Completed index → done index
  signal : ∀ index awaited, HasKind runtime index (.signal awaited) → done awaited → done index
  allOf : ∀ index awaited, HasKind runtime index (.allOf awaited) →
    (∀ task ∈ awaited, done task) → done index

def Implies (runtime : Runtime Value) (waited : List ℕ) (tasks : ℕ → Prop) : Prop :=
  ∀ done, Respects runtime done → (∀ task ∈ waited, done task) → ∀ task, tasks task → done task

/-- The waited tasks are completed exactly with the given ones. -/
def Gates (runtime : Runtime Value) (waited : List ℕ) (tasks : ℕ → Prop) : Prop :=
  Implies runtime waited tasks ∧
    ∀ done, Rises runtime done → (∀ task, tasks task → done task) → ∀ task ∈ waited, done task

theorem hasKind_extends (before after : Runtime Value) (extends_ : Extends before after)
    (index : ℕ) (kind : Kind) (held : HasKind before index kind) : HasKind after index kind := by
  obtain ⟨task, found, same⟩ := held
  obtain ⟨later, there, kept, -⟩ := extends_ index task found
  exact ⟨later, there, kept.trans same⟩

theorem implies_extends (before after : Runtime Value) (extends_ : Extends before after)
    (waited : List ℕ) (tasks : ℕ → Prop) (implies : Implies before waited tasks) :
    Implies after waited tasks := by
  intro done respects all
  have kinds := hasKind_extends before after extends_
  apply implies done _ all
  exact ⟨fun index awaited held => respects.continuation index awaited (kinds _ _ held),
    fun index awaited held => respects.signal index awaited (kinds _ _ held),
    fun index awaited held => respects.allOf index awaited (kinds _ _ held)⟩

theorem gates_extends (before after : Runtime Value) (extends_ : Extends before after)
    (waited : List ℕ) (tasks : ℕ → Prop) (gates : Gates before waited tasks) :
    Gates after waited tasks := by
  refine ⟨implies_extends before after extends_ waited tasks gates.1, ?_⟩
  intro done rises all
  have kinds := hasKind_extends before after extends_
  apply gates.2 done _ all
  exact ⟨fun index completed => rises.completed index
      (extends_completed before after extends_ index completed),
    fun index awaited held => rises.signal index awaited (kinds _ _ held),
    fun index awaited held => rises.allOf index awaited (kinds _ _ held)⟩

theorem gates_congr (runtime : Runtime Value) (waited : List ℕ) (tasks same : ℕ → Prop)
    (iff : ∀ task, same task ↔ tasks task) (gates : Gates runtime waited tasks) :
    Gates runtime waited same := by
  refine ⟨fun done respects all task held => gates.1 done respects all task ((iff task).mp held),
    fun done rises all => gates.2 done rises fun task held => all task ((iff task).mpr held)⟩

theorem gates_self (runtime : Runtime Value) (task : ℕ) :
    Gates runtime [task] fun other => other = task := by
  refine ⟨fun done _ all other same => ?_, fun done _ all other member => ?_⟩
  · rw [same]
    exact all task (by simp)
  · rw [List.mem_singleton.mp member]
    exact all task rfl

theorem gates_completed (runtime : Runtime Value) (task : ℕ) (completed : runtime.Completed task) :
    Gates runtime [task] fun _ => False := by
  refine ⟨fun _ _ _ _ none_ => none_.elim, fun done rises _ other member => ?_⟩
  rw [List.mem_singleton.mp member]
  exact rises.completed task completed

theorem gates_nil (runtime : Runtime Value) : Gates runtime [] fun _ => False :=
  ⟨fun _ _ _ _ none_ => none_.elim, by simp⟩

theorem gates_cons (runtime : Runtime Value) (first : ℕ) (rest : List ℕ) (one more : ℕ → Prop)
    (head : Gates runtime [first] one) (tail : Gates runtime rest more) :
    Gates runtime (first :: rest) fun task => one task ∨ more task := by
  constructor
  · intro done respects all task held
    rcases held with here | there
    · exact head.1 done respects (by simpa using all first (by simp)) task here
    · exact tail.1 done respects (fun other member => all other (by simp [member])) task there
  · intro done rises all task member
    rcases List.mem_cons.mp member with here | there
    · rw [here]
      exact head.2 done rises (fun other held => all other (Or.inl held)) first (by simp)
    · exact tail.2 done rises (fun other held => all other (Or.inr held)) task there

theorem gates_allOf (runtime : Runtime Value) (index : ℕ) (awaited : List ℕ) (tasks : ℕ → Prop)
    (kind : HasKind runtime index (.allOf awaited)) (gates : Gates runtime awaited tasks) :
    Gates runtime [index] tasks := by
  constructor
  · intro done respects all
    exact gates.1 done respects (respects.allOf index awaited kind (all index (by simp)))
  · intro done rises all task member
    rw [List.mem_singleton.mp member]
    exact rises.allOf index awaited kind (gates.2 done rises all)

theorem gates_signal (runtime : Runtime Value) (index awaited : ℕ) (tasks : ℕ → Prop)
    (kind : HasKind runtime index (.signal awaited)) (gates : Gates runtime [awaited] tasks) :
    Gates runtime [index] tasks := by
  constructor
  · intro done respects all
    have before := respects.signal index awaited kind (all index (by simp))
    exact gates.1 done respects (by simpa using before)
  · intro done rises all task member
    rw [List.mem_singleton.mp member]
    exact rises.signal index awaited kind (gates.2 done rises all awaited (by simp))

theorem implies_continuation (runtime : Runtime Value) (index awaited : ℕ) (tasks : ℕ → Prop)
    (kind : HasKind runtime index (.continuation awaited))
    (implies : Implies runtime [awaited] tasks) :
    Implies runtime [index] fun task => tasks task ∨ task = index := by
  intro done respects all task held
  have here := all index (by simp)
  rcases held with earlier | same
  · exact implies done respects (by simpa using respects.continuation index awaited kind here)
      task earlier
  · rw [same]
    exact here

/-! The tasks of a runtime that keeps its law, and of one where nothing is left to run. -/

def Quiet (runtime : Runtime Value) : Prop := runtime.jobs = [] ∧ runtime.running = []

theorem completed_of_kind (runtime : Runtime Value) (index : ℕ) (kind : Kind)
    (held : HasKind runtime index kind) (done : runtime.Completed index) :
    ∃ task outcome, runtime.tasks[index]? = some task ∧ task.kind = kind ∧
      task.outcome = some outcome := by
  obtain ⟨task, found, same⟩ := held
  obtain ⟨there, outcome, present, completed⟩ := (completed_iff runtime index).mp done
  rw [found] at present
  cases present
  exact ⟨task, outcome, found, same, completed⟩

theorem tallied_all (runtime : Runtime Value) (consistent : Consistent [] runtime) (group : ℕ)
    (awaited : List ℕ) (task : BFTask Value) (outcome : Outcome Value)
    (found : runtime.tasks[group]? = some task) (kind : task.kind = .allOf awaited)
    (done : task.outcome = some outcome) :
    ∃ (order : List ℕ) (outcomes : List (Outcome Value)), order.Perm awaited ∧
      order.map runtime.outcome = outcomes.map some ∧
        outcome = combined (outcomes.foldl counted ⟨0, [], []⟩) := by
  obtain ⟨load, closed, order, outcomes, perm, known, counts, last⟩ :=
    (lawful_allOf_iff runtime [] group task awaited kind).mp (consistent.lawful group task found)
  have none_ : task.total = 0 := closed.mp (by rw [done]; rfl)
  have called : runtime.calls [] group = [] := by
    rw [Runtime.load, none_] at load
    exact List.length_eq_zero_iff.mp (by omega)
  rw [called, List.map_nil, List.append_nil] at perm
  exact ⟨order, outcomes, perm, known, by rw [last outcome done, counts]⟩

theorem respects_completed (runtime : Runtime Value) (consistent : Consistent [] runtime) :
    Respects runtime runtime.Completed := by
  constructor
  · intro index awaited held done
    obtain ⟨task, outcome, found, kind, completed⟩ := completed_of_kind runtime index _ held done
    have law := consistent.lawful index task found
    simp only [Lawful, kind, BFTask.done, completed, Option.isSome_some, if_true] at law
    obtain ⟨one, once, begun⟩ := law
    have none_ : runtime.blocks [] index = 0 := by
      have fewer : runtime.blocks [] index ≤ (runtime.calls [] index).length :=
        List.countP_le_length
      rw [Runtime.load] at one
      omega
    exact begun (List.count_pos_iff.mp (by omega))
  · intro index awaited held done
    obtain ⟨task, outcome, found, kind, completed⟩ := completed_of_kind runtime index _ held done
    have law := consistent.lawful index task found
    simp only [Lawful, kind, completed, Option.isSome_some] at law
    exact law.2 trivial
  · intro index awaited held done task member
    obtain ⟨group, outcome, found, kind, completed⟩ := completed_of_kind runtime index _ held done
    obtain ⟨order, outcomes, perm, known, -⟩ := tallied_all runtime consistent index awaited group
      outcome found kind completed
    have there := List.mem_map_of_mem (f := runtime.outcome) (perm.symm.subset member)
    rw [known] at there
    obtain ⟨result, -, same⟩ := List.mem_map.mp there
    exact Option.isSome_iff_exists.mpr ⟨result, same.symm⟩

/-- What still waits in a quiet runtime waits for a task that is not completed. -/
theorem quiet_waits (runtime : Runtime Value) (consistent : Consistent [] runtime)
    (quiet : Quiet runtime) (index : ℕ) (load : runtime.load [] index ≠ 0) :
    ∃ entry ∈ runtime.callbacks, entry.2.target = index ∧ ¬ runtime.Completed entry.1 := by
  rw [Runtime.load, quiet.2, List.count_nil, Nat.add_zero] at load
  obtain ⟨entry, called⟩ := List.exists_mem_of_length_pos (Nat.pos_of_ne_zero load)
  obtain ⟨member, target⟩ := List.mem_filter.mp called
  rw [List.append_nil, Runtime.pending, quiet.1, List.append_nil] at member
  refine ⟨entry, member, by simpa using target, ?_⟩
  obtain ⟨task, found, open_⟩ := consistent.waiting entry member
  simp [Runtime.Completed, Runtime.outcome, found, open_]

theorem rises_completed (runtime : Runtime Value) (consistent : Consistent [] runtime)
    (quiet : Quiet runtime) : Rises runtime runtime.Completed := by
  refine ⟨fun _ done => done, ?_, ?_⟩
  · rintro index awaited ⟨task, found, kind⟩ done
    have law := consistent.lawful index task found
    simp only [Lawful, kind] at law
    by_contra open_
    have none_ : task.outcome = none := by
      simpa [Runtime.Completed, Runtime.outcome, found] using open_
    have load : runtime.load [] index ≠ 0 := by
      have one := law.1
      simp only [BFTask.done, none_, Option.isSome_none, Bool.false_eq_true, if_false] at one
      omega
    obtain ⟨entry, member, target, waits⟩ := quiet_waits runtime consistent quiet index load
    obtain ⟨there, present, fits⟩ := consistent.fits entry (by simp [Runtime.pending, member])
    rw [target, found] at present
    cases present
    obtain ⟨before, callback⟩ := entry
    cases callback <;> simp only [kind, Fits] at fits
    rw [fits] at waits
    exact waits done
  · rintro index awaited ⟨task, found, kind⟩ all
    obtain ⟨load, closed, order, outcomes, perm, -⟩ :=
      (lawful_allOf_iff runtime [] index task awaited kind).mp (consistent.lawful index task found)
    by_contra open_
    have none_ : task.outcome = none := by
      simpa [Runtime.Completed, Runtime.outcome, found] using open_
    have some_ : task.total ≠ 0 := fun zero => by
      simpa [none_] using closed.mpr zero
    obtain ⟨entry, member, target, waits⟩ := quiet_waits runtime consistent quiet index
      (by rw [load]; exact some_)
    apply waits
    apply all
    apply perm.subset
    apply List.mem_append_right
    apply List.mem_map_of_mem
    simp [Runtime.calls, Runtime.pending, member, target]

/-! What the queues keep: a tail stands for the operations put into its queue. -/

def On (operations : List (Operation Object)) (object : Object) (task : ℕ) : Prop :=
  ∃ operation ∈ operations, object ∈ operation.objects ∧ task = operation.task

/-- The tasks an operation waits for: of the operations put in before it for one
of its objects, and its own if it has an object twice. -/
def Ahead (before : List (Operation Object)) (operation : Operation Object) (task : ℕ) : Prop :=
  (∃ object ∈ operation.objects, On before object task) ∨
    (¬ operation.objects.Nodup ∧ task = operation.task)

def AsyncOn (operations : List (AsyncOperation Object)) (queue : Object) (task : ℕ) : Prop :=
  ∃ operation ∈ operations, operation.queue = queue ∧ task = operation.task

structure Orderly (queues : Queues Value Object) : Prop where
  consistent : Consistent [] queues.runtime
  inside : ∀ object, queues.tails object < queues.runtime.tasks.length
  asyncInside : ∀ queue, queues.asyncTails queue < queues.runtime.tasks.length
  tails : ∀ object, Gates queues.runtime [queues.tails object] (On queues.operations object)
  gates : ∀ before operation after, queues.operations = before ++ operation :: after →
    Gates queues.runtime [operation.awaits] (Ahead before operation)
  asyncTails : ∀ queue, Implies queues.runtime [queues.asyncTails queue]
    (AsyncOn queues.asyncOperations queue)
  asyncs : ∀ before operation after, queues.asyncOperations = before ++ operation :: after →
    HasKind queues.runtime operation.source (.forward operation.task) ∧
      ∃ awaited, HasKind queues.runtime operation.task (.continuation awaited) ∧
        Implies queues.runtime [awaited] (AsyncOn before operation.queue)

theorem extends_length (before after : Runtime Value) (extends_ : Extends before after) (index : ℕ)
    (inside : index < before.tasks.length) : index < after.tasks.length := by
  obtain ⟨later, there, -⟩ := extends_ index _ (List.getElem?_eq_getElem inside)
  exact (List.getElem?_eq_some_iff.mp there).1

omit [DecidableEq Object] in
theorem orderly_runtime (queues : Queues Value Object) (orderly : Orderly queues)
    (after : Runtime Value) (extends_ : Extends queues.runtime after)
    (consistent : Consistent [] after) : Orderly { queues with runtime := after } where
  consistent := consistent
  inside object := extends_length queues.runtime after extends_ _ (orderly.inside object)
  asyncInside queue := extends_length queues.runtime after extends_ _ (orderly.asyncInside queue)
  tails object := gates_extends queues.runtime after extends_ _ _ (orderly.tails object)
  gates before operation rest split :=
    gates_extends queues.runtime after extends_ _ _ (orderly.gates before operation rest split)
  asyncTails queue := implies_extends queues.runtime after extends_ _ _ (orderly.asyncTails queue)
  asyncs before operation rest split := by
    obtain ⟨source, awaited, kind, implies⟩ := orderly.asyncs before operation rest split
    exact ⟨hasKind_extends queues.runtime after extends_ _ _ source, awaited,
      hasKind_extends queues.runtime after extends_ _ _ kind,
      implies_extends queues.runtime after extends_ _ _ implies⟩

theorem gates_made (waited : List ℕ) (runtime : Runtime Value) (tasks : ℕ → Prop)
    (gates : Gates runtime waited tasks) :
    Gates (taskForCompletionOfAllTasks waited runtime).2 [runtime.tasks.length] tasks := by
  have grows := extends_taskForCompletionOfAllTasks waited runtime
  have later := gates_extends runtime _ grows waited tasks gates
  have last : (taskForCompletionOfAllTasks waited runtime).2.tasks[runtime.tasks.length]? =
      some (if waited.isEmpty then .withResult none else .new (.allOf waited) waited.length) := by
    rw [taskForCompletionOfAllTasks_tasks]
    simp
  by_cases empty : waited.isEmpty
  · rw [if_pos empty] at last
    have none_ : waited = [] := List.isEmpty_iff.mp empty
    have completed : (taskForCompletionOfAllTasks waited runtime).2.Completed
        runtime.tasks.length := (completed_iff _ _).mpr ⟨_, _, last, rfl⟩
    constructor
    · intro done respects _
      exact later.1 done respects (by simp [none_])
    · intro done rises _ task member
      rw [List.mem_singleton.mp member]
      exact rises.completed _ completed
  · rw [if_neg empty] at last
    exact gates_allOf _ _ waited tasks ⟨_, last, rfl⟩ later

/-- A runtime with tails while an operation is put in: the tail of an object
stands for the tasks given. -/
structure Tailed (hand : List (ℕ × Callback)) (queues : Queues Value Object)
    (tasks : Object → ℕ → Prop) : Prop where
  consistent : Consistent hand queues.runtime
  inside : ∀ object, queues.tails object < queues.runtime.tasks.length
  tails : ∀ object, Gates queues.runtime [queues.tails object] (tasks object)

theorem extendTail_tailed (hand : List (ℕ × Callback)) (queues : Queues Value Object)
    (tasks : Object → ℕ → Prop) (tailed : Tailed hand queues tasks) (object : Object) (task : ℕ)
    (inside : task < queues.runtime.tasks.length) :
    Tailed hand (extendTail object task queues)
      (fun other done => tasks other done ∨ (other = object ∧ done = task)) ∧
        Extends queues.runtime (extendTail object task queues).runtime ∧
          (extendTail object task queues).runtime.tasks.length =
            queues.runtime.tasks.length + 1 := by
  have grows := extends_taskForCompletionOfAllTasks [queues.tails object, task] queues.runtime
  have pair := gates_made _ queues.runtime _ (gates_cons queues.runtime _ [task] _ _
    (tailed.tails object) (gates_self queues.runtime task))
  have index : (taskForCompletionOfAllTasks [queues.tails object, task] queues.runtime).1 =
      queues.runtime.tasks.length := rfl
  have length : (extendTail object task queues).runtime.tasks.length =
      queues.runtime.tasks.length + 1 := by
    simp only [extendTail, taskForCompletionOfAllTasks_tasks, List.length_append,
      List.length_singleton]
  refine ⟨⟨?_, ?_, ?_⟩, grows, length⟩
  · apply consistent_allOf hand [queues.tails object, task] queues.runtime tailed.consistent
    intro waited member
    rcases List.mem_pair.mp member with old | new
    · rw [old]
      exact tailed.inside object
    · rw [new]
      exact inside
  · intro other
    rw [length]
    by_cases same : other = object
    · rw [same]
      simp only [extendTail, Function.update_self, index]
      omega
    · simp only [extendTail, Function.update_of_ne same]
      have before := tailed.inside other
      omega
  · intro other
    by_cases same : other = object
    · subst same
      simp only [extendTail, Function.update_self, index]
      apply gates_congr _ _ _ _ _ pair
      simp
    · simp only [extendTail, Function.update_of_ne same]
      apply gates_congr _ _ _ _ _ (gates_extends queues.runtime _ grows _ _ (tailed.tails other))
      simp [same]

theorem enqueueEach_tailed (hand : List (ℕ × Callback)) (objects : List Object)
    (queues : Queues Value Object) (tasks : Object → ℕ → Prop)
    (tailed : Tailed hand queues tasks) (task : ℕ) (inside : task < queues.runtime.tasks.length) :
    Tailed hand (enqueueEach task objects queues).2
      (fun object done => tasks object done ∨ (object ∈ objects ∧ done = task)) ∧
        Extends queues.runtime (enqueueEach task objects queues).2.runtime ∧
          (enqueueEach task objects queues).2.runtime.tasks.length =
            queues.runtime.tasks.length + objects.length ∧
            Gates (enqueueEach task objects queues).2.runtime (enqueueEach task objects queues).1
              (fun done => (∃ object ∈ objects, tasks object done) ∨
                (¬ objects.Nodup ∧ done = task)) ∧
              ∀ child ∈ (enqueueEach task objects queues).1,
                child < queues.runtime.tasks.length + objects.length := by
  induction objects generalizing queues tasks with
  | nil =>
      refine ⟨⟨tailed.consistent, tailed.inside, ?_⟩, extends_refl _, rfl, ?_, by simp [enqueueEach]⟩
      · intro object
        exact gates_congr _ _ _ _ (by simp) (tailed.tails object)
      · exact gates_congr _ _ _ _ (by simp) (gates_nil queues.runtime)
  | cons object rest ih =>
      obtain ⟨first, grows, length⟩ := extendTail_tailed hand queues tasks tailed object task inside
      obtain ⟨last, more, total, gates, bound⟩ := ih _ _ first (by omega)
      have all := extends_trans _ _ _ grows more
      refine ⟨⟨last.consistent, last.inside, ?_⟩, all, ?_, ?_, ?_⟩
      · intro other
        apply gates_congr _ _ _ _ _ (last.tails other)
        intro done
        simp only [List.mem_cons]
        tauto
      · simp only [enqueueEach, List.length_cons]
        omega
      · have head := gates_extends _ _ all _ _ (tailed.tails object)
        apply gates_congr _ _ _ _ _ (gates_cons _ _ _ _ _ head gates)
        intro done
        simp only [List.mem_cons, List.nodup_cons, exists_eq_or_imp]
        constructor
        · rintro ((here | ⟨other, member, there⟩) | ⟨twice, same⟩)
          · exact Or.inl here
          · exact Or.inr (Or.inl ⟨other, member, Or.inl there⟩)
          · by_cases again : object ∈ rest
            · exact Or.inr (Or.inl ⟨object, again, Or.inr ⟨rfl, same⟩⟩)
            · exact Or.inr (Or.inr ⟨fun once => twice ⟨again, once⟩, same⟩)
        · rintro (here | ⟨other, member, there | ⟨again, same⟩⟩ | ⟨twice, same⟩)
          · exact Or.inl (Or.inl here)
          · exact Or.inl (Or.inr ⟨other, member, there⟩)
          · exact Or.inr ⟨fun once => once.1 (again ▸ member), same⟩
          · exact Or.inr ⟨fun once => twice once.2, same⟩
      · intro child member
        simp only [List.length_cons]
        rcases List.mem_cons.mp member with old | new
        · have before := tailed.inside object
          omega
        · have before := bound child new
          omega

omit [DecidableEq Object] in
theorem on_append (operations : List (Operation Object)) (operation : Operation Object)
    (object : Object) (task : ℕ) :
    On (operations ++ [operation]) object task ↔
      On operations object task ∨ (object ∈ operation.objects ∧ task = operation.task) := by
  simp [On, or_and_right, exists_or]

theorem snoc_split {Item : Type} (items before after : List Item) (last item : Item)
    (split : items ++ [last] = before ++ item :: after) :
    (items = before ∧ last = item ∧ after = []) ∨
      ∃ rest, after = rest ++ [last] ∧ items = before ++ item :: rest := by
  rcases List.eq_nil_or_concat after with none_ | ⟨rest, end_, same⟩
  · subst none_
    obtain ⟨one, two⟩ := List.append_singleton_inj.mp split
    exact Or.inl ⟨one, two, rfl⟩
  · subst same
    rw [List.concat_eq_append, ← List.cons_append, ← List.append_assoc] at split
    obtain ⟨one, two⟩ := List.append_singleton_inj.mp split
    exact Or.inr ⟨rest, by rw [two, List.concat_eq_append], one⟩

omit [DecidableEq Object] in
/-- An operation is put in with tails that stand for it and a gate for what is ahead of it. -/
theorem orderly_put (queues after : Queues Value Object) (orderly : Orderly queues)
    (operation : Operation Object) (extends_ : Extends queues.runtime after.runtime)
    (tailed : Tailed [] after (On (queues.operations ++ [operation])))
    (operations : after.operations = queues.operations ++ [operation])
    (asyncTails : after.asyncTails = queues.asyncTails)
    (asyncs : after.asyncOperations = queues.asyncOperations)
    (gate : Gates after.runtime [operation.awaits] (Ahead queues.operations operation)) :
    Orderly after := by
  have kept := orderly_runtime queues orderly after.runtime extends_ tailed.consistent
  refine ⟨tailed.consistent, tailed.inside, ?_, ?_, ?_, ?_, ?_⟩
  · rw [asyncTails]
    exact kept.asyncInside
  · rw [operations]
    exact tailed.tails
  · intro before other rest split
    rw [operations] at split
    rcases snoc_split _ _ _ _ _ split with ⟨same, last, -⟩ | ⟨more, -, same⟩
    · rw [← same, ← last]
      exact gate
    · exact kept.gates before other more same
  · rw [asyncTails, asyncs]
    exact kept.asyncTails
  · rw [asyncs]
    exact kept.asyncs

theorem startTask_spec (hand : List (ℕ × Callback)) (taskStart : TaskStart) (toAwait : ℕ)
    (runtime : Runtime Value) (consistent : Consistent hand runtime)
    (inside : toAwait < runtime.tasks.length)
    (known : ∀ task, taskStart = .other task → task < runtime.tasks.length) :
    Consistent hand (startTask taskStart toAwait runtime).2 ∧
      Extends runtime (startTask taskStart toAwait runtime).2 ∧
        (startTask taskStart toAwait runtime).1 <
          (startTask taskStart toAwait runtime).2.tasks.length := by
  cases taskStart with
  | continuation =>
      refine ⟨consistent_continueWithBlock hand toAwait runtime consistent inside,
        extends_continueWithBlock toAwait runtime, ?_⟩
      simp only [startTask, continueWithBlock_tasks, List.length_append, List.length_singleton]
      simp [continueWithBlock]
  | awaited => exact ⟨consistent, extends_refl runtime, inside⟩
  | other task => exact ⟨consistent, extends_refl runtime, known task rfl⟩

theorem orderly_enqueue (queues : Queues Value Object) (orderly : Orderly queues)
    (object : Object) (taskStart : TaskStart)
    (known : ∀ task, taskStart = .other task → task < queues.runtime.tasks.length) :
    Orderly (enqueue object taskStart queues) := by
  obtain ⟨consistent, grows, inside⟩ := startTask_spec [] taskStart (queues.tails object)
    queues.runtime orderly.consistent (orderly.inside object) known
  have begun := orderly_runtime queues orderly _ grows consistent
  obtain ⟨tailed, more, -⟩ := extendTail_tailed [] _ _
    ⟨begun.consistent, begun.inside, begun.tails⟩ object
    (startTask taskStart (queues.tails object) queues.runtime).1 inside
  apply orderly_put queues (enqueue object taskStart queues) orderly
    ⟨[object], queues.tails object, (startTask taskStart (queues.tails object) queues.runtime).1⟩
    (extends_trans _ _ _ grows more) ?_ rfl rfl rfl
  · apply gates_congr _ _ _ _ _ (gates_extends _ _ more _ _ (begun.tails object))
    intro task
    simp [Ahead]
  · refine ⟨tailed.consistent, tailed.inside, ?_⟩
    intro other
    apply gates_congr _ _ _ _ _ (tailed.tails other)
    intro task
    rw [on_append]
    simp

theorem enqueueEach_frame (task : ℕ) (objects : List Object) (queues : Queues Value Object) :
    (enqueueEach task objects queues).2.operations = queues.operations ∧
      (enqueueEach task objects queues).2.asyncTails = queues.asyncTails ∧
        (enqueueEach task objects queues).2.asyncOperations = queues.asyncOperations := by
  induction objects generalizing queues with
  | nil => exact ⟨rfl, rfl, rfl⟩
  | cons object rest ih => exact ih (extendTail object task queues)

omit [DecidableEq Object] in
theorem orderly_signal (queues after : Queues Value Object) (orderly : Orderly queues)
    (operation : Operation Object) (childTasks : List ℕ)
    (extends_ : Extends queues.runtime after.runtime)
    (tailed : Tailed [(after.runtime.tasks.length, .signal operation.awaits)] after
      (On (queues.operations ++ [operation])))
    (kind : HasKind after.runtime operation.awaits (.signal after.runtime.tasks.length))
    (gates : Gates after.runtime childTasks (Ahead queues.operations operation))
    (bound : ∀ child ∈ childTasks, child < after.runtime.tasks.length)
    (frame : after.operations = queues.operations ∧ after.asyncTails = queues.asyncTails ∧
      after.asyncOperations = queues.asyncOperations) :
    Orderly { after with
      runtime := addCallback after.runtime.tasks.length (.signal operation.awaits)
        (taskForCompletionOfAllTasks childTasks after.runtime).2
      operations := after.operations ++ [operation] } := by
  have more := extends_trans _ _ _
    (extends_taskForCompletionOfAllTasks childTasks after.runtime)
    (extends_addCallback after.runtime.tasks.length (.signal operation.awaits) _)
  have made := gates_extends _ _ (extends_addCallback after.runtime.tasks.length
    (.signal operation.awaits) _) _ _ (gates_made childTasks after.runtime _ gates)
  have together := consistent_allOf _ childTasks after.runtime tailed.consistent bound
  apply orderly_put queues _ orderly operation (extends_trans _ _ _ extends_ more)
  · refine ⟨?_, fun object => extends_length _ _ more _ (tailed.inside object),
      fun object => gates_extends _ _ more _ _ (tailed.tails object)⟩
    apply consistent_addCallback [] _ _ _ together
    rw [taskForCompletionOfAllTasks_tasks]
    simp
  · rw [frame.1]
  · exact frame.2.1
  · exact frame.2.2
  · exact gates_signal _ _ _ _ (hasKind_extends _ _ more _ _ kind) made

theorem orderly_enqueueForObjects (queues : Queues Value Object) (orderly : Orderly queues)
    (objects : List Object) : Orderly (enqueueForObjects objects queues) := by
  let readyToStart := queues.runtime.tasks.length
  let all := readyToStart + 2 + objects.length
  let waiting := newTask (.new (.signal all) 0) queues.runtime
  let full := continueWithBlock readyToStart waiting
  let each := enqueueEach full.1 objects { queues with runtime := full.2 }
  have signal : Consistent [(all, .signal readyToStart)] waiting :=
    consistent_signal [] all queues.runtime orderly.consistent
  have there : waiting.tasks[readyToStart]? = some (.new (.signal all) 0) := by
    simp [waiting, newTask, readyToStart]
  have begun := extends_continueWithBlock readyToStart waiting
  have length : full.2.tasks.length = readyToStart + 2 := by
    simp only [full, continueWithBlock_tasks]
    simp [waiting, newTask, readyToStart]
  have grown := extends_trans _ _ _ (extends_newTask (.new (.signal all) 0) queues.runtime) begun
  have tailed : Tailed [(all, .signal readyToStart)] { queues with runtime := full.2 }
      (On queues.operations) :=
    ⟨consistent_continueWithBlock _ readyToStart waiting signal
      (List.getElem?_eq_some_iff.mp there).1,
      fun object => extends_length _ _ grown _ (orderly.inside object),
      fun object => gates_extends _ _ grown _ _ (orderly.tails object)⟩
  have inside : full.1 < full.2.tasks.length := by
    rw [length]
    simp [full, continueWithBlock, waiting, newTask, readyToStart]
  obtain ⟨last, more, total, gates, bound⟩ := enqueueEach_tailed _ objects _ _ tailed full.1 inside
  have index : each.2.runtime.tasks.length = all := total.trans (by rw [length])
  have put : Orderly { each.2 with
      runtime := addCallback each.2.runtime.tasks.length (.signal readyToStart)
        (taskForCompletionOfAllTasks each.1 each.2.runtime).2
      operations := each.2.operations ++ [⟨objects, readyToStart, full.1⟩] } := by
    apply orderly_signal queues each.2 orderly ⟨objects, readyToStart, full.1⟩ each.1
      (extends_trans _ _ _ grown more)
    · rw [index]
      refine ⟨last.consistent, last.inside, fun object => ?_⟩
      exact gates_congr _ _ _ _ (on_append _ _ object) (last.tails object)
    · rw [index]
      exact hasKind_extends _ _ (extends_trans _ _ _ begun more) _ _ ⟨_, there, rfl⟩
    · exact gates
    · rw [index]
      intro child member
      exact lt_of_lt_of_eq (bound child member) (by rw [length])
    · exact enqueueEach_frame full.1 objects { queues with runtime := full.2 }
  exact put

theorem orderly_enqueueAsync (queues : Queues Value Object) (orderly : Orderly queues)
    (queue : Object) : Orderly (enqueueAsync queue queues) := by
  let tail := queues.runtime.tasks.length
  let continued := (continueWithBlock (queues.asyncTails queue) queues.runtime).2
  let source := continued.tasks.length
  have length : continued.tasks.length = tail + 1 := by
    simp only [continued, continueWithBlock_tasks]
    simp [tail]
  have begun := extends_continueWithBlock (queues.asyncTails queue) queues.runtime
  have forward := extends_newTask (.new (.forward tail) 0) continued
  have more := extends_trans _ _ _ forward
    (extends_addCallback tail (.setup source) (newTask (.new (.forward tail) 0) continued))
  have grows := extends_trans _ _ _ begun more
  have consistent := consistent_forward [] tail continued
    (consistent_continueWithBlock [] _ _ orderly.consistent (orderly.asyncInside queue))
    (by rw [length]; omega)
  have kept := orderly_runtime queues orderly _ grows consistent
  have tailKind : HasKind (enqueueAsync queue queues).runtime tail
      (.continuation (queues.asyncTails queue)) := by
    apply hasKind_extends continued _ more
    exact ⟨.new (.continuation (queues.asyncTails queue)) 0,
      by simp only [continued, continueWithBlock_tasks]; simp [tail], rfl⟩
  have sourceKind : HasKind (enqueueAsync queue queues).runtime source (.forward tail) := by
    apply hasKind_extends _ _ (extends_addCallback tail (.setup source)
      (newTask (.new (.forward tail) 0) continued))
    exact ⟨.new (.forward tail) 0, by simp [newTask, source], rfl⟩
  have turn := implies_continuation _ _ _ _ tailKind (kept.asyncTails queue)
  refine ⟨consistent, kept.inside, ?_, kept.tails, kept.gates, ?_, ?_⟩
  · intro other
    by_cases same : other = queue
    · rw [same]
      simp only [enqueueAsync, Function.update_self]
      obtain ⟨task, found, -⟩ := tailKind
      exact (List.getElem?_eq_some_iff.mp found).1
    · simp only [enqueueAsync, Function.update_of_ne same]
      exact kept.asyncInside other
  · intro other done respects all task held
    obtain ⟨operation, member, here, done_⟩ := held
    by_cases same : other = queue
    · subst same
      simp only [enqueueAsync, Function.update_self] at all
      apply turn done respects all
      rcases List.mem_append.mp member with old | new
      · exact Or.inl ⟨operation, old, here, done_⟩
      · rw [List.mem_singleton.mp new] at done_
        exact Or.inr done_
    · simp only [enqueueAsync, Function.update_of_ne same] at all
      apply kept.asyncTails other done respects all
      rcases List.mem_append.mp member with old | new
      · exact ⟨operation, old, here, done_⟩
      · rw [List.mem_singleton.mp new] at here
        exact (same here.symm).elim
  · intro before operation rest split
    rcases snoc_split _ _ _ _ _ split with ⟨same, last, -⟩ | ⟨more_, -, same⟩
    · rw [← last, ← same]
      exact ⟨sourceKind, queues.asyncTails queue, tailKind, kept.asyncTails queue⟩
    · exact kept.asyncs before operation more_ same

end CollectionViewWorkshop.TaskQueues
