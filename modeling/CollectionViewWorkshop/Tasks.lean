import Mathlib.Data.Int.Notation
import Mathlib.Data.List.Perm.Basic

/-!
`BFTask` with its continuations and `taskForCompletionOfAllTasks:`. A task is
named by its index. The callbacks of all tasks are kept in one list, each with
the task it waits for; once that is completed the callback is a job, which its
executor runs sooner or later. The block of a continuation may take as long as
it likes and answers what it likes. Cancellation tokens are left out.
-/

namespace CollectionViewWorkshop.Tasks

variable {Value : Type}

inductive TaskError where
  | code (code : ℤ)
  | multiple (errors : List TaskError)

inductive TaskException where
  | raised (reason : String)
  | multiple (exceptions : List TaskException)

inductive Outcome (Value : Type) where
  | result (value : Option Value)
  | error (error : TaskError)
  | exception (exception : TaskException)
  | cancelled

/-- Who completes a task: a `source` its owner, a `continuation` what its block
answers, a `forward` has the outcome of another task, and a `signal` a `nil`
result once another task is completed. -/
inductive Kind where
  | source
  | continuation (awaited : ℕ)
  | forward (awaited : ℕ)
  | signal (awaited : ℕ)
  | allOf (awaited : List ℕ)

structure Counts where
  cancelled : ℕ
  errors : List TaskError
  exceptions : List TaskException

structure BFTask (Value : Type) where
  kind : Kind
  outcome : Option (Outcome Value)
  total : ℕ
  counts : Counts

def BFTask.new (kind : Kind) (total : ℕ) : BFTask Value := ⟨kind, none, total, ⟨0, [], []⟩⟩

@[simp] theorem BFTask.new_kind (kind : Kind) (total : ℕ) :
    (BFTask.new kind total : BFTask Value).kind = kind := rfl

def BFTask.withResult (value : Option Value) : BFTask Value :=
  ⟨.source, some (.result value), 0, ⟨0, [], []⟩⟩

/-- What is done when a task is completed, each for the task it helps to complete. -/
inductive Callback where
  | block (continuation : ℕ)
  | setup (continuation : ℕ)
  | signal (source : ℕ)
  | count (group : ℕ)
  deriving DecidableEq

def Callback.target : Callback → ℕ
  | .block continuation => continuation
  | .setup continuation => continuation
  | .signal source => source
  | .count group => group

def Callback.isBlock : Callback → Bool
  | .block _ => true
  | _ => false

structure Runtime (Value : Type) where
  tasks : List (BFTask Value)
  callbacks : List (ℕ × Callback)
  jobs : List (ℕ × Callback)
  /-- The continuations whose block has been started, and those whose block still runs. -/
  started : List ℕ
  running : List ℕ
  /-- A completion source was set that was set before. -/
  raised : Bool

inductive Answer (Value : Type) where
  | value (value : Option Value)
  | task (task : ℕ)
  | exception (exception : TaskException)

def Runtime.outcome (runtime : Runtime Value) (task : ℕ) : Option (Outcome Value) :=
  runtime.tasks[task]?.bind BFTask.outcome

def Runtime.setTask (runtime : Runtime Value) (index : ℕ) (task : BFTask Value) : Runtime Value :=
  { runtime with tasks := runtime.tasks.set index task }

/-- A task is completed, and `runContinuations` makes jobs of its callbacks. -/
def complete (index : ℕ) (task : BFTask Value) (outcome : Outcome Value)
    (runtime : Runtime Value) : Runtime Value :=
  { runtime with
    tasks := runtime.tasks.set index { task with outcome := some outcome }
    callbacks := runtime.callbacks.filter fun entry => entry.1 ≠ index
    jobs := runtime.jobs ++ runtime.callbacks.filter fun entry => entry.1 = index }

def trySet (index : ℕ) (outcome : Outcome Value) (runtime : Runtime Value) :
    Bool × Runtime Value :=
  match runtime.tasks[index]? with
  | none => (false, runtime)
  | some task =>
      if task.outcome.isSome then (false, runtime)
      else (true, complete index task outcome runtime)

def set (index : ℕ) (outcome : Outcome Value) (runtime : Runtime Value) : Runtime Value :=
  let (accepted, runtime) := trySet index outcome runtime
  { runtime with raised := runtime.raised || !accepted }

def addCallback (task : ℕ) (callback : Callback) (runtime : Runtime Value) : Runtime Value :=
  if (runtime.outcome task).isSome then
    { runtime with jobs := runtime.jobs ++ [(task, callback)] }
  else { runtime with callbacks := runtime.callbacks ++ [(task, callback)] }

def newTask (task : BFTask Value) (runtime : Runtime Value) : Runtime Value :=
  { runtime with tasks := runtime.tasks ++ [task] }

def continueWithBlock (task : ℕ) (runtime : Runtime Value) : ℕ × Runtime Value :=
  (runtime.tasks.length, addCallback task (.block runtime.tasks.length)
    (newTask (.new (.continuation task) 0) runtime))

def addCallbacks (entries : List (ℕ × Callback)) (runtime : Runtime Value) : Runtime Value :=
  entries.foldl (fun runtime entry => addCallback entry.1 entry.2 runtime) runtime

def taskForCompletionOfAllTasks (tasks : List ℕ) (runtime : Runtime Value) : ℕ × Runtime Value :=
  let group := runtime.tasks.length
  (group,
    if tasks.isEmpty then newTask (.withResult none) runtime
    else addCallbacks (tasks.map fun task => (task, .count group))
      (newTask (.new (.allOf tasks) tasks.length) runtime))

def counted (counts : Counts) : Outcome Value → Counts
  | .exception exception => { counts with exceptions := counts.exceptions ++ [exception] }
  | .error error => { counts with errors := counts.errors ++ [error] }
  | .cancelled => { counts with cancelled := counts.cancelled + 1 }
  | .result _ => counts

def combined (counts : Counts) : Outcome Value :=
  match counts.exceptions, counts.errors with
  | [exception], _ => .exception exception
  | exception :: more, _ => .exception (.multiple (exception :: more))
  | [], [error] => .error error
  | [], error :: more => .error (.multiple (error :: more))
  | [], [] => if counts.cancelled > 0 then .cancelled else .result none

def BFTask.count (task : BFTask Value) (outcome : Outcome Value) : BFTask Value :=
  { task with total := task.total - 1, counts := counted task.counts outcome }

def countTask (group : ℕ) (outcome : Outcome Value) (runtime : Runtime Value) : Runtime Value :=
  match runtime.tasks[group]? with
  | none => runtime
  | some task =>
      let task := task.count outcome
      let runtime := runtime.setTask group task
      if task.total = 0 then set group (combined task.counts) runtime else runtime

/-- The block of a continuation has answered. -/
def answered (continuation : ℕ) (answer : Answer Value) (runtime : Runtime Value) :
    Runtime Value :=
  match answer with
  | .value value => set continuation (.result value) runtime
  | .exception exception => set continuation (.exception exception) runtime
  | .task task =>
      match runtime.outcome task with
      | some outcome => set continuation outcome runtime
      | none => addCallback task (.setup continuation) runtime

def Runtime.withoutJob (runtime : Runtime Value) (job : ℕ) : Runtime Value :=
  { runtime with jobs := runtime.jobs.eraseIdx job }

def Runtime.entering (runtime : Runtime Value) (continuation : ℕ) : Runtime Value :=
  { runtime with
    started := runtime.started ++ [continuation]
    running := runtime.running ++ [continuation] }

def Runtime.leaving (runtime : Runtime Value) (continuation : ℕ) : Runtime Value :=
  { runtime with running := runtime.running.erase continuation }

/-- The executor starts the block of a job. -/
def start (job : ℕ) (runtime : Runtime Value) : Option (Runtime Value) :=
  match runtime.jobs[job]? with
  | some (_, .block continuation) => some ((runtime.withoutJob job).entering continuation)
  | _ => none

def finish (continuation : ℕ) (answer : Answer Value) (runtime : Runtime Value) :
    Option (Runtime Value) :=
  if continuation ∈ runtime.running then
    some (answered continuation answer (runtime.leaving continuation))
  else none

/-- The executor runs a job other than the block of a continuation. -/
def settle (job : ℕ) (runtime : Runtime Value) : Option (Runtime Value) := do
  let (task, callback) ← runtime.jobs[job]?
  let outcome ← runtime.outcome task
  match callback with
  | .block _ => none
  | .setup continuation => some (set continuation outcome (runtime.withoutJob job))
  | .signal source => some (set source (.result none) (runtime.withoutJob job))
  | .count group => some (countTask group outcome (runtime.withoutJob job))

/-! What a single operation does to the tasks and to what is left to do for them. -/

def Runtime.pending (runtime : Runtime Value) : List (ℕ × Callback) :=
  runtime.callbacks ++ runtime.jobs

def Runtime.Completed (runtime : Runtime Value) (task : ℕ) : Prop :=
  (runtime.outcome task).isSome = true

/-- The callbacks for a task, with those that an operation has in hand. -/
def Runtime.calls (runtime : Runtime Value) (hand : List (ℕ × Callback)) (index : ℕ) :
    List (ℕ × Callback) :=
  (runtime.pending ++ hand).filter fun entry => entry.2.target = index

/-- How often a task is still to be served. -/
def Runtime.load (runtime : Runtime Value) (hand : List (ℕ × Callback)) (index : ℕ) : ℕ :=
  (runtime.calls hand index).length + runtime.running.count index

def Runtime.blocks (runtime : Runtime Value) (hand : List (ℕ × Callback)) (index : ℕ) : ℕ :=
  (runtime.calls hand index).countP fun entry => entry.2.isBlock

def BFTask.done (task : BFTask Value) : ℕ := if task.outcome.isSome then 1 else 0

/-- Tasks stay, and what is completed stays as it was completed. -/
def Extends (before after : Runtime Value) : Prop :=
  ∀ (index : ℕ) (task : BFTask Value), before.tasks[index]? = some task →
    ∃ later : BFTask Value, after.tasks[index]? = some later ∧ later.kind = task.kind ∧
      ∀ outcome, task.outcome = some outcome → later.outcome = some outcome

theorem completed_iff (runtime : Runtime Value) (index : ℕ) :
    runtime.Completed index ↔
      ∃ task outcome, runtime.tasks[index]? = some task ∧ task.outcome = some outcome := by
  cases found : runtime.tasks[index]? <;>
    simp [Runtime.Completed, Runtime.outcome, found, Option.isSome_iff_exists]

theorem outcome_of_task (runtime : Runtime Value) (index : ℕ) (task : BFTask Value)
    (found : runtime.tasks[index]? = some task) : runtime.outcome index = task.outcome := by
  simp [Runtime.outcome, found]

theorem extends_refl (runtime : Runtime Value) : Extends runtime runtime :=
  fun _ task found => ⟨task, found, rfl, fun _ same => same⟩

theorem extends_trans (first second third : Runtime Value) (one : Extends first second)
    (two : Extends second third) : Extends first third := by
  intro index task found
  obtain ⟨middle, there, kind, kept⟩ := one index task found
  obtain ⟨last, present, same, still⟩ := two index middle there
  exact ⟨last, present, same.trans kind, fun outcome done => still outcome (kept outcome done)⟩

theorem extends_of_tasks (before after : Runtime Value) (same : after.tasks = before.tasks) :
    Extends before after := by
  intro index task found
  exact ⟨task, by rw [same, found], rfl, fun _ done => done⟩

theorem extends_outcome (before after : Runtime Value) (extends_ : Extends before after)
    (index : ℕ) (outcome : Outcome Value) (done : before.outcome index = some outcome) :
    after.outcome index = some outcome := by
  obtain ⟨task, found, held⟩ := Option.bind_eq_some_iff.mp done
  obtain ⟨later, there, -, kept⟩ := extends_ index task found
  rw [outcome_of_task after index later there]
  exact kept outcome held

theorem extends_completed (before after : Runtime Value) (extends_ : Extends before after)
    (index : ℕ) (done : before.Completed index) : after.Completed index := by
  obtain ⟨outcome, held⟩ := Option.isSome_iff_exists.mp done
  exact Option.isSome_iff_exists.mpr ⟨outcome, extends_outcome before after extends_ index _ held⟩

theorem set_open (index : ℕ) (task : BFTask Value) (outcome : Outcome Value)
    (runtime : Runtime Value) (found : runtime.tasks[index]? = some task)
    (open_ : task.outcome = none) :
    set index outcome runtime = complete index task outcome runtime := by
  simp [set, trySet, found, open_, complete]

theorem set_tasks (tasks : List (BFTask Value)) (index : ℕ) (task : BFTask Value)
    (inside : index < tasks.length) (other : ℕ) :
    (tasks.set index task)[other]? = if other = index then some task else tasks[other]? := by
  rw [List.getElem?_set]
  by_cases same : other = index
  · simp [same, inside]
  · simp [same, Ne.symm same]

theorem extends_set (runtime after : Runtime Value) (index : ℕ) (old task : BFTask Value)
    (found : runtime.tasks[index]? = some old) (kind : task.kind = old.kind)
    (kept : ∀ outcome, old.outcome = some outcome → task.outcome = some outcome)
    (tasks : after.tasks = runtime.tasks.set index task) : Extends runtime after := by
  have inside := (List.getElem?_eq_some_iff.mp found).1
  intro other there present
  rw [tasks, set_tasks runtime.tasks index task inside]
  by_cases same : other = index
  · subst same
    rw [found] at present
    cases present
    exact ⟨task, if_pos rfl, kind, kept⟩
  · exact ⟨there, by rw [if_neg same, present], rfl, fun _ done => done⟩

theorem extends_complete (index : ℕ) (old task : BFTask Value) (outcome : Outcome Value)
    (runtime : Runtime Value) (found : runtime.tasks[index]? = some old)
    (kind : task.kind = old.kind) (open_ : old.outcome = none) :
    Extends runtime (complete index task outcome runtime) :=
  extends_set runtime _ index old { task with outcome := some outcome } found kind
    (by simp [open_]) rfl

theorem extends_trySet (index : ℕ) (outcome : Outcome Value) (runtime : Runtime Value) :
    Extends runtime (trySet index outcome runtime).2 := by
  unfold trySet
  split
  · exact extends_refl runtime
  · rename_i task found
    split
    · exact extends_refl runtime
    · rename_i open_
      exact extends_complete index task task outcome runtime found rfl (by simpa using open_)

theorem complete_pending (index : ℕ) (task : BFTask Value) (outcome : Outcome Value)
    (runtime : Runtime Value) :
    (complete index task outcome runtime).pending.Perm runtime.pending := by
  have split := List.filter_append_perm (fun entry : ℕ × Callback => decide (entry.1 = index))
    runtime.callbacks
  have rest : (runtime.callbacks.filter fun entry => !decide (entry.1 = index)) =
      runtime.callbacks.filter fun entry => entry.1 ≠ index := by
    apply List.filter_congr
    simp
  rw [rest] at split
  simp only [Runtime.pending, complete]
  apply List.perm_append_comm.trans
  rw [List.append_assoc]
  exact (split.append_left runtime.jobs).trans List.perm_append_comm

theorem addCallback_pending (task : ℕ) (callback : Callback) (runtime : Runtime Value) :
    (addCallback task callback runtime).pending.Perm (runtime.pending ++ [(task, callback)]) := by
  rw [addCallback]
  split
  · simp [Runtime.pending]
  · simp only [Runtime.pending, List.append_assoc]
    exact List.perm_append_comm.append_left _

theorem addCallback_frame (task : ℕ) (callback : Callback) (runtime : Runtime Value) :
    (addCallback task callback runtime).tasks = runtime.tasks ∧
      (addCallback task callback runtime).started = runtime.started ∧
        (addCallback task callback runtime).running = runtime.running ∧
          (addCallback task callback runtime).raised = runtime.raised := by
  rw [addCallback]
  split <;> exact ⟨rfl, rfl, rfl, rfl⟩

theorem newTask_tasks (task : BFTask Value) (runtime : Runtime Value) (other : ℕ) :
    (newTask task runtime).tasks[other]? =
      if other = runtime.tasks.length then some task else runtime.tasks[other]? := by
  simp only [newTask]
  by_cases same : other = runtime.tasks.length
  · simp [same]
  · rw [if_neg same, List.getElem?_append]
    split
    · rfl
    · rw [List.getElem?_eq_none (by omega : runtime.tasks.length ≤ other)]
      simp
      omega

theorem extends_newTask (task : BFTask Value) (runtime : Runtime Value) :
    Extends runtime (newTask task runtime) := by
  intro index old found
  have inside := (List.getElem?_eq_some_iff.mp found).1
  exact ⟨old, by rw [newTask_tasks, if_neg (by omega), found], rfl, fun _ done => done⟩

theorem extends_addCallback (task : ℕ) (callback : Callback) (runtime : Runtime Value) :
    Extends runtime (addCallback task callback runtime) :=
  extends_of_tasks runtime _ (addCallback_frame task callback runtime).1

theorem continueWithBlock_tasks (task : ℕ) (runtime : Runtime Value) :
    (continueWithBlock task runtime).2.tasks =
      runtime.tasks ++ [.new (.continuation task) 0] :=
  (addCallback_frame task _ _).1

theorem extends_continueWithBlock (task : ℕ) (runtime : Runtime Value) :
    Extends runtime (continueWithBlock task runtime).2 :=
  extends_trans runtime _ _ (extends_newTask _ runtime) (extends_addCallback task _ _)

theorem addCallbacks_tasks (entries : List (ℕ × Callback)) (runtime : Runtime Value) :
    (addCallbacks entries runtime).tasks = runtime.tasks := by
  induction entries generalizing runtime with
  | nil => rfl
  | cons entry rest ih =>
      exact (ih _).trans (addCallback_frame entry.1 entry.2 runtime).1

theorem taskForCompletionOfAllTasks_tasks (tasks : List ℕ) (runtime : Runtime Value) :
    (taskForCompletionOfAllTasks tasks runtime).2.tasks = runtime.tasks ++
      [if tasks.isEmpty then .withResult none else .new (.allOf tasks) tasks.length] := by
  simp only [taskForCompletionOfAllTasks]
  split
  · rfl
  · exact addCallbacks_tasks _ _

theorem extends_taskForCompletionOfAllTasks (tasks : List ℕ) (runtime : Runtime Value) :
    Extends runtime (taskForCompletionOfAllTasks tasks runtime).2 := by
  apply extends_trans runtime _ _ (extends_newTask
    (if tasks.isEmpty then .withResult none else .new (.allOf tasks) tasks.length) runtime)
  exact extends_of_tasks _ _ (taskForCompletionOfAllTasks_tasks tasks runtime)

theorem extends_countTask (group : ℕ) (outcome : Outcome Value) (runtime : Runtime Value) :
    Extends runtime (countTask group outcome runtime) := by
  unfold countTask
  split
  · exact extends_refl runtime
  · rename_i task found
    have counts : Extends runtime (runtime.setTask group (task.count outcome)) :=
      extends_set runtime _ group task (task.count outcome) found rfl (fun _ held => held) rfl
    dsimp only
    split
    · exact extends_trans runtime _ _ counts (extends_trySet group _ _)
    · exact counts

theorem extends_start (job : ℕ) (before after : Runtime Value) (taken : start job before = some after) :
    Extends before after := by
  unfold start at taken
  split at taken <;> cases taken
  exact extends_of_tasks before _ rfl

theorem extends_finish (continuation : ℕ) (answer : Answer Value) (before after : Runtime Value)
    (taken : finish continuation answer before = some after) : Extends before after := by
  unfold finish at taken
  split at taken <;> cases taken
  apply extends_trans before (before.leaving continuation) _ (extends_of_tasks before _ rfl)
  cases answer with
  | value value => exact extends_trySet continuation _ _
  | exception exception => exact extends_trySet continuation _ _
  | task task =>
      simp only [answered]
      split
      · exact extends_trySet continuation _ _
      · exact extends_addCallback task _ _

theorem extends_settle (job : ℕ) (before after : Runtime Value)
    (taken : settle job before = some after) : Extends before after := by
  simp only [settle, Option.bind_eq_bind, Option.bind_eq_some_iff] at taken
  obtain ⟨⟨task, callback⟩, -, outcome, -, settled⟩ := taken
  have same := extends_of_tasks before (before.withoutJob job) rfl
  cases callback <;> cases settled
  · exact extends_trans before _ _ same (extends_trySet _ _ _)
  · exact extends_trans before _ _ same (extends_trySet _ _ _)
  · exact extends_trans before _ _ same (extends_countTask _ _ _)

theorem calls_perm (before after : Runtime Value) (hand rest : List (ℕ × Callback)) (index : ℕ)
    (same : (after.pending ++ rest).Perm (before.pending ++ hand)) :
    (after.calls rest index).Perm (before.calls hand index) :=
  same.filter _

theorem calls_used (runtime : Runtime Value) (used rest : List (ℕ × Callback)) (index other : ℕ)
    (targets : ∀ entry ∈ used, entry.2.target = index) (different : other ≠ index) :
    runtime.calls (used ++ rest) other = runtime.calls rest other := by
  have none_ : (used.filter fun entry => decide (entry.2.target = other)) = [] := by
    apply List.filter_eq_nil_iff.mpr
    intro entry member
    simpa [targets entry member] using Ne.symm different
  simp only [Runtime.calls, List.filter_append, none_, List.nil_append]

end CollectionViewWorkshop.Tasks
