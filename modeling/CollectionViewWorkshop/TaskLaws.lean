import CollectionViewWorkshop.Tasks

/-!
The law of a runtime of tasks, and that every operation keeps it: a callback
is called once, no completion source is set twice, and the task for all tasks
counts each of them. What an operation has in hand counts as not yet called.
-/

namespace CollectionViewWorkshop.TaskLaws

open Tasks

variable {Value : Type}

def Fits : ℕ × Callback → Kind → Prop
  | (task, .block _), .continuation awaited => task = awaited
  | (_, .setup _), .continuation _ => True
  | (task, .setup _), .forward awaited => task = awaited
  | (task, .signal _), .signal awaited => task = awaited
  | (_, .count _), .allOf _ => True
  | _, _ => False

/-- The counts are those of the awaited tasks except for the ones that are `left`. -/
def Tallied (runtime : Runtime Value) (left : List ℕ) (task : BFTask Value)
    (awaited : List ℕ) : Prop :=
  ∃ (done : List ℕ) (outcomes : List (Outcome Value)), (done ++ left).Perm awaited ∧
    done.map runtime.outcome = outcomes.map some ∧
      task.counts = outcomes.foldl counted ⟨0, [], []⟩ ∧
        ∀ outcome, task.outcome = some outcome → outcome = combined task.counts

def Lawful (runtime : Runtime Value) (hand : List (ℕ × Callback)) (index : ℕ)
    (task : BFTask Value) : Prop :=
  match task.kind with
  | .source => runtime.load hand index = 0
  | .continuation awaited => runtime.load hand index + task.done = 1 ∧
      runtime.blocks hand index + runtime.started.count index = 1 ∧
        (index ∈ runtime.started → runtime.Completed awaited)
  | .forward awaited => runtime.load hand index + task.done = 1 ∧
      ∀ outcome, task.outcome = some outcome → runtime.outcome awaited = some outcome
  | .signal awaited => runtime.load hand index + task.done = 1 ∧
      (task.outcome.isSome = true → runtime.Completed awaited)
  | .allOf awaited => runtime.load hand index = task.total ∧
      (task.outcome.isSome = true ↔ task.total = 0) ∧
        Tallied runtime ((runtime.calls hand index).map Prod.fst) task awaited

structure Consistent (hand : List (ℕ × Callback)) (runtime : Runtime Value) : Prop where
  waiting : ∀ entry ∈ runtime.callbacks, ∃ task, runtime.tasks[entry.1]? = some task ∧
    task.outcome = none
  ready : ∀ entry ∈ runtime.jobs, runtime.Completed entry.1
  fits : ∀ entry ∈ runtime.pending ++ hand, ∃ task, runtime.tasks[entry.2.target]? = some task ∧
    Fits entry task.kind
  starts : ∀ continuation ∈ runtime.started, ∃ (task : BFTask Value) (awaited : ℕ),
    runtime.tasks[continuation]? = some task ∧ task.kind = .continuation awaited
  runs : runtime.running ⊆ runtime.started
  lawful : ∀ index task, runtime.tasks[index]? = some task → Lawful runtime hand index task
  unraised : runtime.raised = false

theorem tallied_congr (before after : Runtime Value) (left rest : List ℕ) (task : BFTask Value)
    (awaited : List ℕ) (same : rest.Perm left) (extends_ : Extends before after)
    (tallied : Tallied before left task awaited) : Tallied after rest task awaited := by
  obtain ⟨done, outcomes, order, known, counts, outcome⟩ := tallied
  refine ⟨done, outcomes, (same.append_left done).trans order, ?_, counts, outcome⟩
  rw [← known]
  apply List.map_congr_left
  intro other member
  have held : before.outcome other ∈ outcomes.map some := by
    rw [← known]
    exact List.mem_map_of_mem member
  obtain ⟨there, -, equal⟩ := List.mem_map.mp held
  rw [← equal]
  exact extends_outcome before after extends_ other there equal.symm

theorem lawful_congr (before after : Runtime Value) (hand rest : List (ℕ × Callback))
    (index : ℕ) (task : BFTask Value)
    (calls : (after.calls rest index).Perm (before.calls hand index))
    (running : after.running.count index = before.running.count index)
    (started : after.started.count index = before.started.count index)
    (extends_ : Extends before after) (law : Lawful before hand index task) :
    Lawful after rest index task := by
  have load : after.load rest index = before.load hand index := by
    simp only [Runtime.load, calls.length_eq, running]
  have blocks : after.blocks rest index = before.blocks hand index := calls.countP_eq _
  have member : index ∈ after.started ↔ index ∈ before.started := by
    simp only [← List.count_pos_iff, started]
  unfold Lawful at law ⊢
  cases kind : task.kind <;> simp only [kind] at law ⊢ <;> rw [load]
  · exact law
  · obtain ⟨one, once, after_⟩ := law
    rw [blocks, started, member]
    exact ⟨one, once, fun begun => extends_completed before after extends_ _ (after_ begun)⟩
  · exact ⟨law.1, fun outcome done =>
      extends_outcome before after extends_ _ outcome (law.2 outcome done)⟩
  · exact ⟨law.1, fun done => extends_completed before after extends_ _ (law.2 done)⟩
  · exact ⟨law.1, law.2.1, tallied_congr before after _ _ task _ (calls.map Prod.fst) extends_
      law.2.2⟩

theorem fits_extends (before after : Runtime Value) (extends_ : Extends before after)
    (entry : ℕ × Callback)
    (fits : ∃ task, before.tasks[entry.2.target]? = some task ∧ Fits entry task.kind) :
    ∃ task, after.tasks[entry.2.target]? = some task ∧ Fits entry task.kind := by
  obtain ⟨task, found, held⟩ := fits
  obtain ⟨later, there, kind, -⟩ := extends_ _ task found
  exact ⟨later, there, by rw [kind]; exact held⟩

theorem starts_extends (before after : Runtime Value) (extends_ : Extends before after)
    (continuation : ℕ)
    (starts : ∃ (task : BFTask Value) (awaited : ℕ), before.tasks[continuation]? = some task ∧
      task.kind = .continuation awaited) :
    ∃ (task : BFTask Value) (awaited : ℕ), after.tasks[continuation]? = some task ∧
      task.kind = .continuation awaited := by
  obtain ⟨task, awaited, found, held⟩ := starts
  obtain ⟨later, there, kind, -⟩ := extends_ _ task found
  exact ⟨later, awaited, there, kind.trans held⟩

theorem consistent_complete (used rest : List (ℕ × Callback)) (index : ℕ) (old task : BFTask Value)
    (outcome : Outcome Value) (runtime : Runtime Value)
    (consistent : Consistent (used ++ rest) runtime)
    (targets : ∀ entry ∈ used, entry.2.target = index)
    (found : runtime.tasks[index]? = some old) (open_ : old.outcome = none)
    (kind : task.kind = old.kind)
    (law : Lawful (complete index task outcome runtime) rest index
      { task with outcome := some outcome }) :
    Consistent rest (complete index task outcome runtime) := by
  have inside := (List.getElem?_eq_some_iff.mp found).1
  have tasks := set_tasks runtime.tasks index { task with outcome := some outcome } inside
  have pending := complete_pending index task outcome runtime
  have grows := extends_complete index old task outcome runtime found kind open_
  refine ⟨?_, ?_, ?_, ?_, consistent.runs, ?_, consistent.unraised⟩
  · intro entry member
    obtain ⟨before, elsewhere⟩ := List.mem_filter.mp member
    obtain ⟨there, present, waits⟩ := consistent.waiting entry before
    exact ⟨there, by rw [complete, tasks, if_neg (by simpa using elsewhere), present], waits⟩
  · intro entry member
    rcases List.mem_append.mp member with before | moved
    · exact extends_completed runtime _ grows entry.1 (consistent.ready entry before)
    · rw [completed_iff]
      refine ⟨_, outcome, (tasks entry.1).trans (if_pos ?_), rfl⟩
      simpa using (List.mem_filter.mp moved).2
  · intro entry member
    apply fits_extends runtime _ grows
    apply consistent.fits
    rcases List.mem_append.mp member with before | inHand
    · exact List.mem_append_left _ (pending.subset before)
    · exact List.mem_append_right _ (List.mem_append_right _ inHand)
  · intro continuation member
    exact starts_extends runtime _ grows continuation (consistent.starts continuation member)
  · intro other there present
    rw [complete, tasks] at present
    by_cases same : other = index
    · subst same
      rw [if_pos rfl] at present
      cases present
      exact law
    · rw [if_neg same] at present
      apply lawful_congr runtime (complete index task outcome runtime) (used ++ rest) rest other
        there _ rfl rfl grows
        (consistent.lawful other there present)
      rw [calls_used runtime used rest index other targets same]
      exact calls_perm runtime _ rest rest other (pending.append_right rest)

theorem consistent_setTask (used rest : List (ℕ × Callback)) (index : ℕ) (old task : BFTask Value)
    (runtime : Runtime Value) (consistent : Consistent (used ++ rest) runtime)
    (targets : ∀ entry ∈ used, entry.2.target = index)
    (found : runtime.tasks[index]? = some old) (outcome : task.outcome = old.outcome)
    (kind : task.kind = old.kind) (law : Lawful (runtime.setTask index task) rest index task) :
    Consistent rest (runtime.setTask index task) := by
  have inside := (List.getElem?_eq_some_iff.mp found).1
  have tasks := set_tasks runtime.tasks index task inside
  have grows : Extends runtime (runtime.setTask index task) :=
    extends_set runtime _ index old task found kind (by simp [outcome]) rfl
  refine ⟨?_, ?_, ?_, ?_, consistent.runs, ?_, consistent.unraised⟩
  · intro entry member
    obtain ⟨there, present, waits⟩ := consistent.waiting entry member
    rw [Runtime.setTask, tasks]
    by_cases same : entry.1 = index
    · rw [same, found] at present
      cases present
      exact ⟨task, if_pos same, outcome.trans waits⟩
    · exact ⟨there, by rw [if_neg same, present], waits⟩
  · intro entry member
    exact extends_completed runtime _ grows entry.1 (consistent.ready entry member)
  · intro entry member
    apply fits_extends runtime _ grows
    apply consistent.fits
    rcases List.mem_append.mp member with before | inHand
    · exact List.mem_append_left _ before
    · exact List.mem_append_right _ (List.mem_append_right _ inHand)
  · intro continuation member
    exact starts_extends runtime _ grows continuation (consistent.starts continuation member)
  · intro other there present
    rw [Runtime.setTask, tasks] at present
    by_cases same : other = index
    · subst same
      rw [if_pos rfl] at present
      cases present
      exact law
    · rw [if_neg same] at present
      apply lawful_congr runtime (runtime.setTask index task) (used ++ rest) rest other there _
        rfl rfl grows
        (consistent.lawful other there present)
      rw [calls_used runtime used rest index other targets same]
      exact List.Perm.refl _

theorem consistent_addCallback (hand : List (ℕ × Callback)) (task : ℕ) (callback : Callback)
    (runtime : Runtime Value) (consistent : Consistent ((task, callback) :: hand) runtime)
    (inside : task < runtime.tasks.length) :
    Consistent hand (addCallback task callback runtime) := by
  -- the callback goes over to the task it waits for
  have pending : ((addCallback task callback runtime).pending ++ hand).Perm
      (runtime.pending ++ (task, callback) :: hand) := by
    have moved := (addCallback_pending task callback runtime).append_right hand
    simpa using moved
  obtain ⟨tasks, started, running, raised⟩ := addCallback_frame task callback runtime
  have grows := extends_of_tasks runtime (addCallback task callback runtime) tasks
  refine ⟨?_, ?_, ?_, ?_, ?_, ?_, raised.trans consistent.unraised⟩
  · rw [addCallback]
    split
    · exact consistent.waiting
    · rename_i uncompleted
      intro entry member
      rcases List.mem_append.mp member with before | last
      · exact consistent.waiting entry before
      · rw [List.mem_singleton.mp last]
        refine ⟨runtime.tasks[task], List.getElem?_eq_getElem inside, ?_⟩
        simpa [Runtime.outcome, List.getElem?_eq_getElem inside] using uncompleted
  · intro entry member
    apply extends_completed runtime _ grows
    rw [addCallback] at member
    split at member
    · rename_i completed
      rcases List.mem_append.mp member with before | last
      · exact consistent.ready entry before
      · rw [List.mem_singleton.mp last]
        exact completed
    · exact consistent.ready entry member
  · intro entry member
    exact fits_extends runtime _ grows entry (consistent.fits entry (pending.subset member))
  · intro continuation member
    rw [started] at member
    exact starts_extends runtime _ grows continuation (consistent.starts continuation member)
  · rw [running, started]
    exact consistent.runs
  · intro index there present
    rw [tasks] at present
    exact lawful_congr runtime _ ((task, callback) :: hand) hand index there
      (calls_perm runtime _ _ hand index pending) (by rw [running]) (by rw [started]) grows
      (consistent.lawful index there present)

theorem calls_beyond (hand : List (ℕ × Callback)) (runtime : Runtime Value)
    (consistent : Consistent hand runtime) (index : ℕ) (beyond : runtime.tasks.length ≤ index) :
    runtime.calls hand index = [] := by
  apply List.filter_eq_nil_iff.mpr
  intro entry member same
  obtain ⟨task, there, -⟩ := consistent.fits entry member
  have inside := (List.getElem?_eq_some_iff.mp there).1
  have target : entry.2.target = index := by simpa using same
  omega

theorem started_beyond (hand : List (ℕ × Callback)) (runtime : Runtime Value)
    (consistent : Consistent hand runtime) (index : ℕ) (beyond : runtime.tasks.length ≤ index) :
    index ∉ runtime.started := by
  intro member
  obtain ⟨task, awaited, there, -⟩ := consistent.starts index member
  have inside := (List.getElem?_eq_some_iff.mp there).1
  omega

theorem consistent_newTask (made hand : List (ℕ × Callback)) (task : BFTask Value)
    (runtime : Runtime Value) (consistent : Consistent hand runtime)
    (targets : ∀ entry ∈ made, entry.2.target = runtime.tasks.length ∧ Fits entry task.kind)
    (law : Lawful (newTask task runtime) (made ++ hand) runtime.tasks.length task) :
    Consistent (made ++ hand) (newTask task runtime) := by
  have tasks := newTask_tasks task runtime
  have grows := extends_newTask task runtime
  have inside : ∀ (index : ℕ) (old : BFTask Value), runtime.tasks[index]? = some old →
      index ≠ runtime.tasks.length := by
    intro index old found
    have bound := (List.getElem?_eq_some_iff.mp found).1
    omega
  refine ⟨?_, ?_, ?_, ?_, consistent.runs, ?_, consistent.unraised⟩
  · intro entry member
    obtain ⟨old, found, open_⟩ := consistent.waiting entry member
    exact ⟨old, by rw [tasks, if_neg (inside entry.1 old found), found], open_⟩
  · intro entry member
    exact extends_completed runtime _ grows entry.1 (consistent.ready entry member)
  · intro entry member
    rcases List.mem_append.mp member with before | inHand
    · exact fits_extends runtime _ grows entry
        (consistent.fits entry (List.mem_append_left _ before))
    · rcases List.mem_append.mp inHand with fresh | old
      · obtain ⟨target, fits⟩ := targets entry fresh
        exact ⟨task, by rw [tasks, if_pos target], fits⟩
      · exact fits_extends runtime _ grows entry
          (consistent.fits entry (List.mem_append_right _ old))
  · intro continuation member
    exact starts_extends runtime _ grows continuation (consistent.starts continuation member)
  · intro index there present
    rw [tasks] at present
    by_cases same : index = runtime.tasks.length
    · rw [if_pos same] at present
      cases present
      rw [same]
      exact law
    · rw [if_neg same] at present
      apply lawful_congr runtime (newTask task runtime) hand (made ++ hand) index there _
        rfl rfl grows
        (consistent.lawful index there present)
      rw [calls_used (newTask task runtime) made hand runtime.tasks.length index
        (fun entry member => (targets entry member).1) same]
      exact List.Perm.refl _

/-! What a callback in hand adds, and what is left once it was called. -/

theorem calls_cons (runtime : Runtime Value) (entry : ℕ × Callback)
    (rest : List (ℕ × Callback)) (index : ℕ) (target : entry.2.target = index) :
    (runtime.calls (entry :: rest) index).Perm (entry :: runtime.calls rest index) := by
  have moved : (runtime.pending ++ entry :: rest).Perm (entry :: (runtime.pending ++ rest)) :=
    List.perm_middle
  have kept := moved.filter fun other => other.2.target = index
  rw [List.filter_cons_of_pos (by simpa using target)] at kept
  exact kept

theorem load_cons (runtime : Runtime Value) (entry : ℕ × Callback)
    (rest : List (ℕ × Callback)) (index : ℕ) (target : entry.2.target = index) :
    runtime.load (entry :: rest) index = runtime.load rest index + 1 := by
  rw [Runtime.load, (calls_cons runtime entry rest index target).length_eq, List.length_cons,
    Runtime.load]
  omega

theorem blocks_cons (runtime : Runtime Value) (entry : ℕ × Callback)
    (rest : List (ℕ × Callback)) (index : ℕ) (target : entry.2.target = index) :
    runtime.blocks (entry :: rest) index =
      runtime.blocks rest index + if entry.2.isBlock then 1 else 0 := by
  rw [Runtime.blocks, (calls_cons runtime entry rest index target).countP_eq, List.countP_cons,
    Runtime.blocks]

theorem complete_calls (index : ℕ) (task : BFTask Value) (outcome : Outcome Value)
    (runtime : Runtime Value) (hand : List (ℕ × Callback)) (other : ℕ) :
    ((complete index task outcome runtime).calls hand other).Perm (runtime.calls hand other) :=
  calls_perm runtime _ hand hand other
    ((complete_pending index task outcome runtime).append_right hand)

theorem complete_load (index : ℕ) (task : BFTask Value) (outcome : Outcome Value)
    (runtime : Runtime Value) (hand : List (ℕ × Callback)) (other : ℕ) :
    (complete index task outcome runtime).load hand other = runtime.load hand other := by
  simp only [Runtime.load, (complete_calls index task outcome runtime hand other).length_eq]
  rfl

theorem complete_blocks (index : ℕ) (task : BFTask Value) (outcome : Outcome Value)
    (runtime : Runtime Value) (hand : List (ℕ × Callback)) (other : ℕ) :
    (complete index task outcome runtime).blocks hand other = runtime.blocks hand other :=
  (complete_calls index task outcome runtime hand other).countP_eq _

def Passes (runtime : Runtime Value) (callback : Callback) (outcome : Outcome Value) :
    Kind → Prop
  | .continuation _ => callback.isBlock = false
  | .forward awaited => runtime.outcome awaited = some outcome
  | .signal awaited => runtime.Completed awaited
  | _ => False

/-- A completion source whose callback is in hand was not set before. -/
theorem consistent_set (rest : List (ℕ × Callback)) (entry : ℕ × Callback)
    (task : BFTask Value) (outcome : Outcome Value) (runtime : Runtime Value)
    (consistent : Consistent (entry :: rest) runtime)
    (found : runtime.tasks[entry.2.target]? = some task)
    (passes : Passes runtime entry.2 outcome task.kind) :
    Consistent rest (set entry.2.target outcome runtime) := by
  have law := consistent.lawful entry.2.target task found
  have load := load_cons runtime entry rest entry.2.target rfl
  have blocks := blocks_cons runtime entry rest entry.2.target rfl
  have open_ : task.outcome = none := by
    cases done : task.outcome with
    | none => rfl
    | some old =>
        unfold Lawful at law
        cases kind : task.kind <;> rw [kind] at law passes
        all_goals simp only [BFTask.done, done, Option.isSome_some, if_true] at law
        · exact passes.elim
        · omega
        · omega
        · omega
        · exact passes.elim
  rw [set_open entry.2.target task outcome runtime found open_]
  have grows := extends_complete entry.2.target task task outcome runtime found rfl open_
  apply consistent_complete [entry] rest entry.2.target task task outcome runtime consistent
    (by simp) found open_ rfl
  unfold Lawful at law ⊢
  cases kind : task.kind <;> simp only [kind] at law ⊢ passes
  all_goals simp only [BFTask.done, open_, Option.isSome_none, Option.isSome_some,
    Bool.false_eq_true, if_false, if_true, complete_load] at law ⊢
  · exact passes.elim
  · rw [complete_blocks]
    simp only [Passes] at passes
    simp only [passes, Bool.false_eq_true, if_false] at blocks
    obtain ⟨one, once, begun⟩ := law
    refine ⟨by omega, ?_, fun member => extends_completed runtime _ grows _ (begun member)⟩
    rw [blocks] at once
    exact once
  · refine ⟨by omega, ?_⟩
    intro same equal
    cases equal
    exact extends_outcome runtime _ grows _ outcome passes
  · exact ⟨by omega, fun _ => extends_completed runtime _ grows _ passes⟩
  · exact passes.elim

theorem lawful_allOf_iff (runtime : Runtime Value) (hand : List (ℕ × Callback)) (index : ℕ)
    (task : BFTask Value) (awaited : List ℕ) (kind : task.kind = .allOf awaited) :
    Lawful runtime hand index task ↔ runtime.load hand index = task.total ∧
      (task.outcome.isSome = true ↔ task.total = 0) ∧
        Tallied runtime ((runtime.calls hand index).map Prod.fst) task awaited := by
  simp only [Lawful, kind]

/-- A counted task goes over from those that are left to those that are done. -/
theorem tallied_count (runtime : Runtime Value) (awaited : ℕ) (left rest tasks : List ℕ)
    (task : BFTask Value) (outcome : Outcome Value) (last : Option (Outcome Value))
    (same : left.Perm (awaited :: rest)) (done : runtime.outcome awaited = some outcome)
    (tallied : Tallied runtime left task tasks)
    (ends : ∀ known, last = some known → known = combined (task.count outcome).counts) :
    Tallied runtime rest { task.count outcome with outcome := last } tasks := by
  obtain ⟨before, outcomes, order, known, counts, -⟩ := tallied
  refine ⟨before ++ [awaited], outcomes ++ [outcome], ?_, ?_, ?_, ends⟩
  · rw [List.append_assoc]
    exact (same.symm.append_left before).trans order
  · simp [known, done]
  · simp [BFTask.count, counts]

theorem consistent_countTask (rest : List (ℕ × Callback)) (awaited group : ℕ)
    (task : BFTask Value) (tasks : List ℕ) (outcome : Outcome Value) (runtime : Runtime Value)
    (consistent : Consistent ((awaited, .count group) :: rest) runtime)
    (found : runtime.tasks[group]? = some task) (kind : task.kind = .allOf tasks)
    (done : runtime.outcome awaited = some outcome) :
    Consistent rest (countTask group outcome runtime) := by
  have inside := (List.getElem?_eq_some_iff.mp found).1
  obtain ⟨load, closed, tallied⟩ := (lawful_allOf_iff runtime _ group task tasks kind).mp
    (consistent.lawful group task found)
  rw [load_cons runtime (awaited, .count group) rest group rfl] at load
  have open_ : task.outcome = none := by
    cases held : task.outcome with
    | none => rfl
    | some old =>
        have none_ : task.total = 0 := closed.mp (by rw [held]; rfl)
        omega
  have fewer : (task.count outcome).total = task.total - 1 := rfl
  have left := (calls_cons runtime (awaited, .count group) rest group rfl).map Prod.fst
  have targets : ∀ entry ∈ [(awaited, Callback.count group)], entry.2.target = group := by
    simp [Callback.target]
  simp only [countTask, found]
  by_cases last : (task.count outcome).total = 0
  · rw [if_pos last, set_open group (task.count outcome) _ _
      (by simp [Runtime.setTask, inside]) open_]
    have once : complete group (task.count outcome) (combined (task.count outcome).counts)
        (runtime.setTask group (task.count outcome)) =
          complete group (task.count outcome) (combined (task.count outcome).counts) runtime := by
      simp [complete, Runtime.setTask]
    rw [once]
    have grows := extends_complete group task (task.count outcome)
      (combined (task.count outcome).counts) runtime found rfl open_
    apply consistent_complete [(awaited, .count group)] rest group task (task.count outcome) _
      runtime consistent targets found open_ rfl
    rw [lawful_allOf_iff _ rest group _ tasks (by exact kind), complete_load]
    refine ⟨by rw [last]; omega, by simp [last], ?_⟩
    apply tallied_congr runtime _ _ _ _ tasks
      ((complete_calls group (task.count outcome) _ runtime rest group).map Prod.fst) grows
    exact tallied_count runtime awaited _ _ tasks task outcome _ left done tallied (by simp)
  · rw [if_neg last]
    apply consistent_setTask [(awaited, .count group)] rest group task (task.count outcome) runtime
      consistent targets found rfl rfl
    have grows : Extends runtime (runtime.setTask group (task.count outcome)) :=
      extends_set runtime _ group task (task.count outcome) found rfl (fun _ held => held) rfl
    have kept : (runtime.setTask group (task.count outcome)).load rest group =
        runtime.load rest group := rfl
    have still : (task.count outcome).outcome = none := open_
    rw [lawful_allOf_iff _ rest group (task.count outcome) tasks kind, kept, still]
    refine ⟨by omega, by simp [last], ?_⟩
    apply tallied_congr runtime _ _ _ _ tasks (List.Perm.refl _) grows
    have counted_ := tallied_count runtime awaited _ _ tasks task outcome none left done tallied
      (by simp)
    rw [← still] at counted_
    exact counted_

/-! The steps a runtime takes. -/

/-- What changes neither tasks nor callbacks only has to keep the law of each task. -/
theorem consistent_regroup (before after : Runtime Value) (hand rest : List (ℕ × Callback))
    (consistent : Consistent hand before) (tasks : after.tasks = before.tasks)
    (callbacks : after.callbacks = before.callbacks) (raised : after.raised = before.raised)
    (jobs : ∀ entry ∈ after.jobs, entry ∈ before.jobs)
    (fits : ∀ entry ∈ rest, entry ∈ before.pending ++ hand ∨
      ∃ task, before.tasks[entry.2.target]? = some task ∧ Fits entry task.kind)
    (starts : ∀ continuation ∈ after.started, continuation ∈ before.started ∨
      ∃ (task : BFTask Value) (awaited : ℕ), before.tasks[continuation]? = some task ∧
        task.kind = .continuation awaited)
    (runs : after.running ⊆ after.started)
    (lawful : ∀ index task, before.tasks[index]? = some task →
      Lawful before hand index task → Lawful after rest index task) :
    Consistent rest after := by
  have grows := extends_of_tasks before after tasks
  refine ⟨?_, ?_, ?_, ?_, runs, ?_, raised.trans consistent.unraised⟩
  · rw [callbacks, tasks]
    exact consistent.waiting
  · intro entry member
    exact extends_completed before after grows entry.1 (consistent.ready entry (jobs entry member))
  · intro entry member
    apply fits_extends before after grows
    rcases List.mem_append.mp member with pending | inHand
    · apply consistent.fits entry (List.mem_append_left _ _)
      rw [Runtime.pending, callbacks] at pending
      rcases List.mem_append.mp pending with waits | job
      · exact List.mem_append_left _ waits
      · exact List.mem_append_right _ (jobs entry job)
    · rcases fits entry inHand with known | held
      · exact consistent.fits entry known
      · exact held
  · intro continuation member
    apply starts_extends before after grows
    rcases starts continuation member with known | held
    · exact consistent.starts continuation known
    · exact held
  · intro index task found
    rw [tasks] at found
    exact lawful index task found (consistent.lawful index task found)

theorem consistent_takeJob (hand : List (ℕ × Callback)) (job : ℕ) (entry : ℕ × Callback)
    (runtime : Runtime Value) (consistent : Consistent hand runtime)
    (there : runtime.jobs[job]? = some entry) :
    Consistent (entry :: hand) (runtime.withoutJob job) := by
  obtain ⟨inside, here⟩ := List.getElem?_eq_some_iff.mp there
  have split : (runtime.callbacks ++ runtime.jobs.eraseIdx job ++ entry :: hand).Perm
      (runtime.callbacks ++ runtime.jobs ++ hand) := by
    have taken := List.getElem_cons_eraseIdx_perm inside
    rw [here] at taken
    have moved := (taken.append_right hand).append_left runtime.callbacks
    rw [List.append_assoc, List.append_assoc]
    exact (List.perm_middle.append_left _).trans moved
  apply consistent_regroup runtime (runtime.withoutJob job) hand (entry :: hand) consistent
    rfl rfl rfl
  · intro other member
    exact List.mem_of_mem_eraseIdx member
  · intro other member
    exact Or.inl (split.subset (List.mem_append_right _ member))
  · intro continuation member
    exact Or.inl member
  · exact consistent.runs
  · intro index task found law
    exact lawful_congr runtime (runtime.withoutJob job) hand (entry :: hand) index task
      (calls_perm runtime (runtime.withoutJob job) hand _ index split) rfl rfl
      (extends_of_tasks runtime (runtime.withoutJob job) rfl) law

/-- The block of a continuation goes over from its job to those that run. -/
theorem consistent_entering (hand : List (ℕ × Callback)) (awaited continuation : ℕ)
    (runtime : Runtime Value)
    (consistent : Consistent ((awaited, .block continuation) :: hand) runtime)
    (completed : runtime.Completed awaited) :
    Consistent hand (runtime.entering continuation) := by
  obtain ⟨waiter, present, fits⟩ := consistent.fits (awaited, .block continuation) (by simp)
  have kind : waiter.kind = .continuation awaited := by
    cases held : waiter.kind <;> simp [Fits, held] at fits
    rw [fits]
  have same := extends_of_tasks runtime (runtime.entering continuation) rfl
  apply consistent_regroup runtime (runtime.entering continuation) _ hand consistent rfl rfl rfl
  · intro other member
    exact member
  · intro other member
    exact Or.inl (List.mem_append_right _ (List.mem_cons_of_mem _ member))
  · intro other member
    rcases List.mem_append.mp member with before | last
    · exact Or.inl before
    · rw [List.mem_singleton.mp last]
      exact Or.inr ⟨waiter, awaited, present, kind⟩
  · intro other member
    rcases List.mem_append.mp member with before | last
    · exact List.mem_append_left _ (consistent.runs before)
    · exact List.mem_append_right _ last
  · intro index task found law
    by_cases here : index = continuation
    · subst here
      rw [show runtime.tasks[index]? = some waiter from present] at found
      cases found
      have load := load_cons runtime (awaited, .block index) hand index rfl
      have blocks := blocks_cons runtime (awaited, .block index) hand index rfl
      simp only [Lawful, kind] at law ⊢
      obtain ⟨one, once, -⟩ := law
      have more : (runtime.entering index).load hand index = runtime.load hand index + 1 := by
        simp [Runtime.load, Runtime.entering, Runtime.calls, Runtime.pending, Nat.add_assoc]
      have begun : (runtime.entering index).started.count index =
          runtime.started.count index + 1 := by
        simp [Runtime.entering]
      have rest : (runtime.entering index).blocks hand index = runtime.blocks hand index := rfl
      simp only [Callback.isBlock, if_true] at blocks
      exact ⟨by omega, by omega, fun _ => extends_completed runtime _ same awaited completed⟩
    · apply lawful_congr runtime (runtime.entering continuation)
        ((awaited, .block continuation) :: hand) hand index task _ _ _ same law
      · have used := calls_used runtime [(awaited, .block continuation)] hand continuation index
          (by simp [Callback.target]) here
        rw [List.singleton_append] at used
        rw [used]
        exact List.Perm.refl _
      · simp [Runtime.entering, Ne.symm here]
      · simp [Runtime.entering, Ne.symm here]

theorem consistent_leaving (hand : List (ℕ × Callback)) (awaited continuation : ℕ)
    (runtime : Runtime Value) (consistent : Consistent hand runtime)
    (runs : continuation ∈ runtime.running) :
    Consistent ((awaited, .setup continuation) :: hand) (runtime.leaving continuation) := by
  -- the task of the continuation is left in hand
  obtain ⟨waiter, before, present, kind⟩ := consistent.starts continuation (consistent.runs runs)
  have same := extends_of_tasks runtime (runtime.leaving continuation) rfl
  apply consistent_regroup runtime (runtime.leaving continuation) hand _ consistent rfl rfl rfl
  · intro other member
    exact member
  · intro other member
    rcases List.mem_cons.mp member with first | old
    · rw [first]
      exact Or.inr ⟨waiter, present, by rw [kind]; trivial⟩
    · exact Or.inl (List.mem_append_right _ old)
  · intro other member
    exact Or.inl member
  · intro other member
    exact consistent.runs (List.mem_of_mem_erase member)
  · intro index task found law
    by_cases here : index = continuation
    · subst here
      rw [present] at found
      cases found
      have load := load_cons (runtime.leaving index) (awaited, .setup index) hand index rfl
      have blocks := blocks_cons (runtime.leaving index) (awaited, .setup index) hand index rfl
      simp only [Lawful, kind] at law ⊢
      obtain ⟨one, once, begun⟩ := law
      have runsOnce := List.count_pos_iff.mpr runs
      have fewer : (runtime.leaving index).load hand index + 1 = runtime.load hand index := by
        have erased := List.count_erase_self (a := index) (l := runtime.running)
        simp only [Runtime.load, Runtime.leaving, erased]
        have calls : ({ runtime with running := runtime.running.erase index } :
          Runtime Value).calls hand index = runtime.calls hand index := rfl
        rw [calls]
        omega
      have rest : (runtime.leaving index).blocks hand index = runtime.blocks hand index := rfl
      have startedToo : (runtime.leaving index).started = runtime.started := rfl
      simp only [Callback.isBlock, Bool.false_eq_true, if_false] at blocks
      rw [startedToo]
      exact ⟨by omega, by omega, fun member => extends_completed runtime _ same _ (begun member)⟩
    · apply lawful_congr runtime (runtime.leaving continuation) hand
        ((awaited, .setup continuation) :: hand) index task _ _ rfl same law
      · have used := calls_used (runtime.leaving continuation) [(awaited, .setup continuation)] hand
          continuation index (by simp [Callback.target]) here
        rw [List.singleton_append] at used
        rw [used]
        exact List.Perm.refl _
      · simp [Runtime.leaving, here]

theorem consistent_start (hand : List (ℕ × Callback)) (job : ℕ) (before after : Runtime Value)
    (consistent : Consistent hand before) (taken : start job before = some after) :
    Consistent hand after := by
  unfold start at taken
  split at taken
  · rename_i awaited continuation there
    cases taken
    have completed := consistent.ready _ (List.mem_of_getElem? there)
    exact consistent_entering hand awaited continuation (before.withoutJob job)
      (consistent_takeJob hand job _ before consistent there) completed
  · cases taken

theorem consistent_finish (hand : List (ℕ × Callback)) (continuation : ℕ)
    (answer : Answer Value) (before after : Runtime Value) (consistent : Consistent hand before)
    (known : ∀ task, answer = .task task → task < before.tasks.length)
    (taken : finish continuation answer before = some after) : Consistent hand after := by
  unfold finish at taken
  split at taken
  · rename_i runs
    cases taken
    obtain ⟨waiter, awaited, present, kind⟩ := consistent.starts continuation
      (consistent.runs runs)
    have setOnce : ∀ (task : ℕ) (outcome : Outcome Value),
        Consistent hand (set continuation outcome (before.leaving continuation)) := by
      intro task outcome
      exact consistent_set hand (task, .setup continuation) waiter outcome _
        (consistent_leaving hand task continuation before consistent runs) present
        (by rw [kind]; rfl)
    cases answer with
    | value value => exact setOnce 0 (.result value)
    | exception exception => exact setOnce 0 (.exception exception)
    | task task =>
        simp only [answered]
        split
        · exact setOnce task _
        · exact consistent_addCallback hand task (.setup continuation) _
            (consistent_leaving hand task continuation before consistent runs) (known task rfl)
  · cases taken

theorem consistent_settle (hand : List (ℕ × Callback)) (job : ℕ) (before after : Runtime Value)
    (consistent : Consistent hand before) (taken : settle job before = some after) :
    Consistent hand after := by
  simp only [settle, Option.bind_eq_bind, Option.bind_eq_some_iff] at taken
  obtain ⟨⟨task, callback⟩, there, outcome, done, settled⟩ := taken
  have inHand := consistent_takeJob hand job _ before consistent there
  obtain ⟨target, present, fits⟩ := inHand.fits (task, callback) (by simp)
  cases callback with
  | block continuation => cases settled
  | setup continuation =>
      cases settled
      apply consistent_set hand (task, .setup continuation) target outcome _ inHand present
      cases kind : target.kind <;> simp only [kind, Fits] at fits
      · rfl
      · rw [← fits]
        exact done
  | signal source =>
      cases settled
      apply consistent_set hand (task, .signal source) target (.result none) _ inHand present
      cases kind : target.kind <;> simp only [kind, Fits] at fits
      rw [← fits]
      exact Option.isSome_iff_exists.mpr ⟨outcome, done⟩
  | count group =>
      cases settled
      cases kind : target.kind <;> simp only [kind, Fits] at fits
      exact consistent_countTask hand task group target _ outcome _ inHand present kind done

theorem fresh_calls (made hand : List (ℕ × Callback)) (task : BFTask Value)
    (runtime : Runtime Value) (consistent : Consistent hand runtime)
    (targets : ∀ entry ∈ made, entry.2.target = runtime.tasks.length) :
    ((newTask task runtime).calls (made ++ hand) runtime.tasks.length).Perm made := by
  have none_ := calls_beyond hand runtime consistent runtime.tasks.length (Nat.le_refl _)
  have all : (made.filter fun entry => decide (entry.2.target = runtime.tasks.length)) = made :=
    List.filter_eq_self.mpr fun entry member => by simpa using targets entry member
  have moved : ((newTask task runtime).pending ++ (made ++ hand)).Perm
      (made ++ (runtime.pending ++ hand)) := by
    rw [← List.append_assoc, ← List.append_assoc]
    exact List.perm_append_comm.append_right hand
  have kept := moved.filter fun entry => decide (entry.2.target = runtime.tasks.length)
  rw [List.filter_append made, all] at kept
  rw [Runtime.calls] at none_
  rw [none_, List.append_nil] at kept
  exact kept

theorem fresh_load (made hand : List (ℕ × Callback)) (task : BFTask Value)
    (runtime : Runtime Value) (consistent : Consistent hand runtime)
    (targets : ∀ entry ∈ made, entry.2.target = runtime.tasks.length) :
    (newTask task runtime).load (made ++ hand) runtime.tasks.length = made.length := by
  have running : runtime.running.count runtime.tasks.length = 0 :=
    List.count_eq_zero.mpr fun runs =>
      started_beyond hand runtime consistent _ (Nat.le_refl _) (consistent.runs runs)
  rw [Runtime.load, (fresh_calls made hand task runtime consistent targets).length_eq]
  exact (congrArg (made.length + ·) running).trans (Nat.add_zero _)

/-- The owner of a source may complete it once. -/
theorem consistent_trySet (hand : List (ℕ × Callback)) (index : ℕ) (outcome : Outcome Value)
    (runtime : Runtime Value) (consistent : Consistent hand runtime)
    (source : ∀ task, runtime.tasks[index]? = some task → task.kind = .source) :
    Consistent hand (trySet index outcome runtime).2 := by
  unfold trySet
  split
  · exact consistent
  · rename_i task found
    split
    · exact consistent
    · rename_i open_
      have law := consistent.lawful index task found
      apply consistent_complete [] hand index task task outcome runtime consistent (by simp) found
        (by simpa using open_) rfl
      simp only [Lawful, source task found] at law ⊢
      rw [complete_load]
      exact law

theorem consistent_source (hand : List (ℕ × Callback)) (task : BFTask Value)
    (runtime : Runtime Value) (consistent : Consistent hand runtime) (kind : task.kind = .source) :
    Consistent hand (newTask task runtime) := by
  apply consistent_newTask [] hand task runtime consistent (by simp)
  simp only [Lawful, kind]
  exact fresh_load [] hand task runtime consistent (by simp)

theorem consistent_continueWithBlock (hand : List (ℕ × Callback)) (task : ℕ)
    (runtime : Runtime Value) (consistent : Consistent hand runtime)
    (inside : task < runtime.tasks.length) :
    Consistent hand (continueWithBlock task runtime).2 := by
  have targets : ∀ entry ∈ [(task, Callback.block runtime.tasks.length)],
      entry.2.target = runtime.tasks.length := by
    simp [Callback.target]
  have load := fresh_load _ hand (.new (.continuation task) 0) runtime consistent targets
  have calls := fresh_calls _ hand (.new (.continuation task) 0) runtime consistent targets
  have unstarted := started_beyond hand runtime consistent _ (Nat.le_refl _)
  apply consistent_addCallback hand task (.block runtime.tasks.length)
  · apply consistent_newTask [(task, .block runtime.tasks.length)] hand _ runtime consistent
    · simp [Callback.target, Fits, BFTask.new]
    · have none_ : (newTask (.new (.continuation task) 0) runtime).started.count
          runtime.tasks.length = 0 := List.count_eq_zero.mpr unstarted
      have blocks := calls.countP_eq fun entry => entry.2.isBlock
      simp only [Lawful, BFTask.new_kind]
      refine ⟨by rw [load]; rfl, ?_, fun begun => (unstarted begun).elim⟩
      rw [Runtime.blocks, blocks, none_]
      rfl
  · simp only [newTask, List.length_append]
    omega

theorem consistent_forward (hand : List (ℕ × Callback)) (task : ℕ) (runtime : Runtime Value)
    (consistent : Consistent hand runtime) (inside : task < runtime.tasks.length) :
    Consistent hand (addCallback task (.setup runtime.tasks.length)
      (newTask (.new (.forward task) 0) runtime)) := by
  have targets : ∀ entry ∈ [(task, Callback.setup runtime.tasks.length)],
      entry.2.target = runtime.tasks.length := by
    simp [Callback.target]
  have load := fresh_load _ hand (.new (.forward task) 0) runtime consistent targets
  apply consistent_addCallback hand task (.setup runtime.tasks.length)
  · apply consistent_newTask [(task, .setup runtime.tasks.length)] hand _ runtime consistent
    · simp [Callback.target, Fits, BFTask.new]
    · simp only [Lawful, BFTask.new_kind]
      exact ⟨by rw [load]; rfl, by simp [BFTask.new]⟩
  · simp only [newTask, List.length_append]
    omega

theorem consistent_signal (hand : List (ℕ × Callback)) (task : ℕ) (runtime : Runtime Value)
    (consistent : Consistent hand runtime) :
    Consistent ((task, .signal runtime.tasks.length) :: hand)
      (newTask (.new (.signal task) 0) runtime) := by
  have targets : ∀ entry ∈ [(task, Callback.signal runtime.tasks.length)],
      entry.2.target = runtime.tasks.length := by
    simp [Callback.target]
  have load := fresh_load _ hand (.new (.signal task) 0) runtime consistent targets
  apply consistent_newTask [(task, .signal runtime.tasks.length)] hand _ runtime consistent
  · simp [Callback.target, Fits, BFTask.new]
  · simp only [Lawful, BFTask.new_kind]
    exact ⟨by rw [load]; rfl, by simp [BFTask.new]⟩

theorem consistent_addCallbacks (hand entries : List (ℕ × Callback)) (runtime : Runtime Value)
    (consistent : Consistent (entries ++ hand) runtime)
    (inside : ∀ entry ∈ entries, entry.1 < runtime.tasks.length) :
    Consistent hand (addCallbacks entries runtime) := by
  induction entries generalizing runtime with
  | nil => exact consistent
  | cons entry rest ih =>
      obtain ⟨here, more⟩ := List.forall_mem_cons.mp inside
      have tasks := (addCallback_frame entry.1 entry.2 runtime).1
      apply ih
      · exact consistent_addCallback (rest ++ hand) entry.1 entry.2 runtime consistent here
      · rw [tasks]
        exact more

theorem consistent_allOf (hand : List (ℕ × Callback)) (tasks : List ℕ) (runtime : Runtime Value)
    (consistent : Consistent hand runtime) (inside : ∀ task ∈ tasks, task < runtime.tasks.length) :
    Consistent hand (taskForCompletionOfAllTasks tasks runtime).2 := by
  unfold taskForCompletionOfAllTasks
  by_cases empty : tasks.isEmpty
  · simp only [empty, if_true]
    exact consistent_source hand (.withResult none) runtime consistent rfl
  · simp only [empty, Bool.false_eq_true, if_false]
    have some_ : tasks.length ≠ 0 := by simpa using empty
    let made := tasks.map fun task => (task, Callback.count runtime.tasks.length)
    have targets : ∀ entry ∈ made, entry.2.target = runtime.tasks.length := by
      simp [made, Callback.target]
    have load := fresh_load made hand (.new (.allOf tasks) tasks.length) runtime consistent targets
    have calls := fresh_calls made hand (.new (.allOf tasks) tasks.length) runtime consistent
      targets
    apply consistent_addCallbacks hand made
    · apply consistent_newTask made hand _ runtime consistent
      · simp [made, Callback.target, Fits, BFTask.new]
      · rw [lawful_allOf_iff _ _ _ _ tasks rfl]
        refine ⟨by rw [load]; simp [made, BFTask.new], ?_, [], [], ?_, rfl, rfl, ?_⟩
        · simpa [BFTask.new] using empty
        · have left := calls.map Prod.fst
          simpa [made, Function.comp_def] using left
        · simp [BFTask.new]
    · intro entry member
      obtain ⟨task, there, same⟩ := List.mem_map.mp member
      rw [← same]
      have bound := inside task there
      simp only [newTask, List.length_append]
      omega

end CollectionViewWorkshop.TaskLaws
