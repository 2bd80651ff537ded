import CollectionViewWorkshop.ParseObjectRuns

/-!
What becomes of the edits of an object nobody else writes, while it is saved:
what the object shows, and runs that only set and remove fields.
-/

namespace CollectionViewWorkshop.SavedObjects

open FieldOperations KeyedWrites ParseObject ParseObjectRuns ParseValues PartialRuns

variable {Value : Type} [FieldValue Value] [DecidableEq Value]

/-! Saving does not show. -/

/-- One edit of a field that is not shared with anyone. -/
def applyEdit (change : Edit Value) (shown : Option Value) : Option Value :=
  match operationOf change shown with
  | none => shown
  | some operation =>
      match applyToValue operation shown with
      | .ok newValue => newValue
      | .error _ => shown

/-- The edits of a key in turn, whatever requests fall in between. -/
def history (key : NSString) : List (Event Value) → Option Value → Option Value
  | [], shown => shown
  | .edit change other :: rest, shown =>
      history key rest (if other = key then applyEdit change shown else shown)
  | _ :: rest, shown => history key rest shown

/-- No edit is taken back and no answer brings a field. -/
def Undisturbed : Event Value → Prop
  | .revert _ | .revertKey _ | .fetched _ => False
  | .saved result => result.fields = ∅
  | _ => True

theorem history_append (key : NSString) (first second : List (Event Value))
    (shown : Option Value) :
    history key (first ++ second) shown = history key second (history key first shown) := by
  induction first generalizing shown with
  | nil => rfl
  | cons event rest ih => cases event <;> simp only [List.cons_append, history, ih]

theorem edit_shows (change : Edit Value) (edited key : NSString) (object : PFObject Value) :
    (edit change edited object).1.objectForKey key =
      if edited = key then applyEdit change (object.objectForKey key)
      else object.objectForKey key := by
  rw [edit_eq]
  by_cases same : edited = key
  · subst same
    rw [if_pos rfl, applyEdit]
    cases asked : operationOf change (object.objectForKey edited) with
    | none => rfl
    | some operation =>
        simp only [performOperation, PFObject.objectForKey]
        cases applied : applyToValue operation (object.estimatedData.lookup edited) with
        | error raised => rfl
        | ok newValue =>
            cases merges : mergeWithPrevious operation (object.unsavedChanges.lookup edited) <;>
              simp
  · rw [if_neg same]
    cases asked : operationOf change (object.objectForKey edited) with
    | none => rfl
    | some operation =>
        have other : key ≠ edited := fun equal => same equal.symm
        simp only [performOperation, PFObject.objectForKey]
        cases applied : applyToValue operation (object.estimatedData.lookup edited) with
        | error raised => rfl
        | ok newValue =>
            cases merges : mergeWithPrevious operation (object.unsavedChanges.lookup edited) <;>
              simp [other]

theorem rebuild_changes (object : PFObject Value) :
    ∃ estimatedData,
      (rebuildEstimatedData object).1 = { object with estimatedData := estimatedData } := by
  rw [rebuildEstimatedData]
  split
  · exact ⟨_, rfl⟩
  · exact ⟨_, rfl⟩

/-- After a save that succeeded a key shows the later edits over the field the answer
brings, or else what it showed before. -/
theorem saved_shows (result : ServerResult Value) (before : World Value)
    (changes : PFOperationSet Value) (inFlight : before.sending = some changes)
    (sound : Sound before)
    (after : Sound (handleSaveResultAsync (some result) before)) (key : NSString) :
    writeAt applyToValue (before.object.unsavedChanges.lookup key)
        ((result.fields.lookup key).or
          ((applyOperationSet changes before.object.serverData).1.lookup key)) =
      .ok ((handleSaveResultAsync (some result) before).object.objectForKey key) := by
  have waiting : before.object.waiting = [changes] := by
    rw [sound.queued, inFlight]
    rfl
  have done := (first_applies changes [] before.object waiting sound.tracks).1
  have shown := after.tracks key
  cases applied : applyOperationSet changes before.object.serverData with
  | mk serverData raised =>
      rw [applied] at done
      subst done
      simp only [handleSaveResultAsync, mergeAfterSaveWithResult, waiting,
        mergeAfterSuccessfulSave, applied] at shown ⊢
      obtain ⟨estimatedData, rebuilt⟩ := rebuild_changes
        (mergeFromServerWithResult result
          { before.object with waiting := [], serverData := serverData })
      rw [rebuilt, queue_ok_iff] at shown
      obtain ⟨base, nothing, written⟩ := shown
      cases nothing
      rw [rebuilt, ← lookup_union]
      exact written

theorem saved_unchanged (result : ServerResult Value) (before : World Value)
    (changes : PFOperationSet Value) (inFlight : before.sending = some changes)
    (sound : Sound before) (nothing : result.fields = ∅)
    (after : Sound (handleSaveResultAsync (some result) before)) (key : NSString) :
    (handleSaveResultAsync (some result) before).object.objectForKey key =
      before.object.objectForKey key := by
  have shown := saved_shows result before changes inFlight sound after key
  have waiting : before.object.waiting = [changes] := by
    rw [sound.queued, inFlight]
    rfl
  have queued := (first_applies changes [] before.object waiting sound.tracks).2 key
  rw [List.nil_append, replayAt_cons_ok_iff] at queued
  obtain ⟨middle, written, same⟩ := queued
  cases same
  rw [nothing, AList.lookup_empty, Option.none_or, written] at shown
  exact (Except.ok.inj shown).symm

theorem failedSave_estimates (object : PFObject Value) :
    (mergeAfterSaveWithResult none object).1.estimatedData = object.estimatedData := by
  cases waiting : object.waiting with
  | nil => simp [mergeAfterSaveWithResult, waiting]
  | cons operationsBeforeSave rest =>
      cases rest <;> simp [mergeAfterSaveWithResult, waiting, mergeAfterFailedSave]

/-! Runs that only set and remove fields, which is all the stream does. -/

/-- What an operation leaves whatever was there, if it does. -/
def overwritesWith : PFFieldOperation Value → Option (Option Value)
  | .set value => some (some value)
  | .delete => some none
  | _ => none

def Overwrites (operation : PFFieldOperation Value) : Prop :=
  (overwritesWith operation).isSome

def OverwritesAll (operationSet : PFOperationSet Value) : Prop :=
  ∀ key operation, operationSet.lookup key = some operation → Overwrites operation

/-- The edits are sets and removals, and a save with dirty children sends the object too. -/
def Overwriting (_ : List (Event Value)) (world : World Value) : Event Value → Prop
  | .edit (.setObject _) _ | .edit .removeObject _ => True
  | .edit _ _ => False
  | .save childrenDirty => childrenDirty = true → isDirty world.object = true
  | .saveRaised => False
  | _ => True

structure OverwritingQueue (object : PFObject Value) : Prop where
  waiting : ∀ operationSet ∈ object.waiting, OverwritesAll operationSet
  unsaved : OverwritesAll object.unsavedChanges

theorem apply_overwriting (operation : PFFieldOperation Value) (overwrites : Overwrites operation)
    (value : Option Value) :
    ∃ left, overwritesWith operation = some left ∧ applyToValue operation value = .ok left := by
  cases operation with
  | set value => exact ⟨_, rfl, rfl⟩
  | delete => exact ⟨_, rfl, rfl⟩
  | increment amount => cases overwrites
  | add objects => cases overwrites
  | addUnique objects => cases overwrites
  | remove objects => cases overwrites

theorem merge_overwriting (operation previous : PFFieldOperation Value)
    (overwrites : Overwrites operation) :
    mergeAfter operation previous = .ok operation ∧ Follows operation previous ∧
      ∀ base, Regroups operation previous base := by
  cases operation with
  | set value => exact ⟨rfl, trivial, fun _ => by simp [Regroups]⟩
  | delete => exact ⟨rfl, trivial, fun _ => by simp [Regroups]⟩
  | increment amount => cases overwrites
  | add objects => cases overwrites
  | addUnique objects => cases overwrites
  | remove objects => cases overwrites

theorem replay_overwriting (sets : List (PFOperationSet Value))
    (overwriting : ∀ operationSet ∈ sets, OverwritesAll operationSet) (key : NSString)
    (value : Option Value) : ∃ result, replayAt key sets value = .ok result := by
  induction sets generalizing value with
  | nil => exact ⟨value, rfl⟩
  | cons operationSet rest ih =>
      have later := ih fun other member => overwriting other (List.mem_cons_of_mem _ member)
      cases found : operationSet.lookup key with
      | none =>
          obtain ⟨result, replayed⟩ := later value
          exact ⟨result, (replayAt_cons_ok_iff key operationSet rest _ _).mpr
            ⟨value, by rw [found, writeAt_none], replayed⟩⟩
      | some operation =>
          obtain ⟨left, -, applied⟩ := apply_overwriting operation
            (overwriting operationSet List.mem_cons_self key operation found) value
          obtain ⟨result, replayed⟩ := later left
          exact ⟨result, (replayAt_cons_ok_iff key operationSet rest _ _).mpr
            ⟨left, by rw [found, writeAt_some, applied], replayed⟩⟩

omit [FieldValue Value] [DecidableEq Value] in
theorem OverwritingQueue.all (object : PFObject Value) (queue : OverwritingQueue object) :
    ∀ operationSet ∈ object.operationSetQueue, OverwritesAll operationSet := by
  intro operationSet member
  rcases List.mem_append.mp member with old | last
  · exact queue.waiting operationSet old
  · rw [List.mem_singleton.mp last]
    exact queue.unsaved

omit [DecidableEq Value] in
theorem operationOf_overwrites (change : Edit Value) (key : NSString) (world : World Value)
    (allowed : Overwriting [] world (.edit change key)) (shown : Option Value)
    (operation : PFFieldOperation Value) (asked : operationOf change shown = some operation) :
    Overwrites operation := by
  cases change with
  | setObject value =>
      cases value with
      | none => cases asked
      | some value =>
          cases asked
          rfl
  | removeObject =>
      cases shown with
      | none => cases asked
      | some value =>
          cases asked
          rfl
  | incrementByAmount amount => cases allowed
  | addObjectsFromArray objects => cases allowed
  | addUniqueObjectsFromArray objects => cases allowed
  | removeObjectsInArray objects => cases allowed

theorem overwriting_meets (world : World Value) (event : Event Value)
    (queue : OverwritingQueue world.object) (allowed : Overwriting [] world event) :
    Meets [] world event := by
  cases event with
  | edit change key =>
      intro operation asked newValue previous base applied found replayed
      obtain ⟨-, follows, regroups⟩ := merge_overwriting operation previous
        (operationOf_overwrites change key world allowed _ operation asked)
      exact ⟨fun _ => regroups base, fun unable => absurd follows unable⟩
  | revert childrenDirty => trivial
  | revertKey key => trivial
  | save childrenDirty => exact allowed
  | saveRaised => cases allowed
  | saved result =>
      intro key field named
      exact replay_overwriting _ (by simpa using queue.unsaved) key (some field)
  | saveFailed =>
      intro changes sending
      constructor
      · intro key previous operation _ found
        exact (merge_overwriting operation previous (queue.unsaved key operation found)).2.1
      · intro key previous operation _ found
        exact (merge_overwriting operation previous (queue.unsaved key operation found)).2.2 _
  | fetched result =>
      intro key
      exact replay_overwriting _ queue.all key _

omit [FieldValue Value] [DecidableEq Value] in
theorem overwritesAll_empty : OverwritesAll (∅ : PFOperationSet Value) := by
  intro key operation found
  simp at found

theorem perform_overwriting (operation : PFFieldOperation Value) (key : NSString)
    (object : PFObject Value) (overwrites : Overwrites operation)
    (queue : OverwritingQueue object) :
    OverwritingQueue (performOperation operation key object).1 := by
  have merges : mergeWithPrevious operation (object.unsavedChanges.lookup key) =
      .ok operation := by
    cases object.unsavedChanges.lookup key with
    | none => rfl
    | some previous => exact (merge_overwriting operation previous overwrites).1
  obtain ⟨left, -, applied⟩ := apply_overwriting operation overwrites
    (object.estimatedData.lookup key)
  simp only [performOperation, applied, merges]
  refine ⟨queue.waiting, ?_⟩
  intro other found inserted
  by_cases same : other = key
  · subst same
    rw [AList.lookup_insert] at inserted
    cases inserted
    exact overwrites
  · rw [AList.lookup_insert_ne same] at inserted
    exact queue.unsaved other found inserted

theorem mergedSet_lookup (later earlier merged : PFOperationSet Value)
    (merges : mergeOperationSet later earlier = (merged, none))
    (overwrites : OverwritesAll later) (key : NSString) :
    merged.lookup key = (later.lookup key).or (earlier.lookup key) := by
  have spec := writeAll_spec mergeOperation earlier later
  rw [← mergeOperationSet, merges] at spec
  have here := spec rfl key
  cases before : earlier.lookup key with
  | none =>
      rw [before, writeAt_none] at here
      rw [← Except.ok.inj here, Option.or_none]
  | some previous =>
      rw [before, writeAt_some] at here
      cases after : later.lookup key with
      | none =>
          rw [after] at here
          exact (Except.ok.inj here).symm
      | some operation =>
          rw [after] at here
          have one := (merge_overwriting operation previous
            (overwrites key operation after)).1
          simpa [mergeOperation, mergeWithPrevious, one, Except.map] using here.symm

theorem merge_follows (earlier later : PFOperationSet Value) (overwrites : OverwritesAll later) :
    ∃ merged, mergeOperationSet later earlier = (merged, none) := by
  refine ⟨(mergeOperationSet later earlier).1, Prod.ext rfl ?_⟩
  apply (mergeOperationSet_raises_iff later earlier).mpr
  intro key previous operation _ found
  exact (merge_overwriting operation previous (overwrites key operation found)).2.1

theorem handleSave_overwriting (result : Option (ServerResult Value)) (world : World Value)
    (changes : PFOperationSet Value) (waiting : world.object.waiting = [changes])
    (queue : OverwritingQueue world.object) :
    OverwritingQueue (handleSaveResultAsync result world).object := by
  cases result with
  | some result =>
      simp only [handleSaveResultAsync, mergeAfterSaveWithResult, waiting,
        mergeAfterSuccessfulSave]
      split
      · exact ⟨by simp, queue.unsaved⟩
      · obtain ⟨estimatedData, rebuilt⟩ := rebuild_changes
          (mergeFromServerWithResult result
            { world.object with waiting := [], serverData := _ })
        rw [rebuilt]
        exact ⟨by simp [mergeFromServerWithResult], queue.unsaved⟩
  | none =>
      obtain ⟨merged, merges⟩ := merge_follows changes world.object.unsavedChanges queue.unsaved
      simp only [handleSaveResultAsync, mergeAfterSaveWithResult, waiting, mergeAfterFailedSave,
        merges]
      refine ⟨by simp, ?_⟩
      intro key operation found
      rw [mergedSet_lookup _ _ merged merges queue.unsaved key] at found
      rcases Option.or_eq_some_iff.mp found with later | ⟨-, earlier⟩
      · exact queue.unsaved key operation later
      · exact queue.waiting changes (by simp [waiting]) key operation earlier

theorem revert_overwriting (childrenDirty : Bool) (object : PFObject Value)
    (queue : OverwritingQueue object) : OverwritingQueue (revert childrenDirty object).1 := by
  simp only [revert]
  split
  · obtain ⟨estimatedData, rebuilt⟩ := rebuild_changes { object with unsavedChanges := ∅ }
    rw [rebuilt]
    exact ⟨queue.waiting, overwritesAll_empty⟩
  · exact queue

theorem revertObjectForKey_overwriting (key : NSString) (object : PFObject Value)
    (queue : OverwritingQueue object) : OverwritingQueue (revertObjectForKey key object).1 := by
  simp only [revertObjectForKey]
  split
  · obtain ⟨estimatedData, rebuilt⟩ := rebuild_changes
      { object with unsavedChanges := object.unsavedChanges.erase key }
    rw [rebuilt]
    refine ⟨queue.waiting, ?_⟩
    intro other operation found
    by_cases same : other = key
    · subst same
      simp at found
    · rw [AList.lookup_erase_ne same] at found
      exact queue.unsaved other operation found
  · exact queue

theorem step_overwriting (event : Event Value) (before after : World Value)
    (sound : Sound before) (queue : OverwritingQueue before.object)
    (allowed : Overwriting [] before event) (taken : step before event = some after) :
    OverwritingQueue after.object := by
  cases event with
  | edit change key =>
      cases taken
      rw [edit_eq]
      cases asked : operationOf change (before.object.objectForKey key) with
      | none => exact queue
      | some operation =>
          exact perform_overwriting operation key before.object
            (operationOf_overwrites change key before allowed _ operation asked) queue
  | revert childrenDirty =>
      cases taken
      exact revert_overwriting childrenDirty before.object queue
  | revertKey key =>
      cases taken
      exact revertObjectForKey_overwriting key before.object queue
  | save childrenDirty =>
      simp only [step] at taken
      split at taken
      · cases taken
        simp only [saveAsync]
        split
        · exact ⟨queue.all, overwritesAll_empty⟩
        · exact queue
      · cases taken
  | saveRaised => cases allowed
  | saved result =>
      cases sending : before.sending with
      | none => simp [step, sending] at taken
      | some changes =>
          simp only [step, sending, Option.isSome_some, if_true, Option.some.injEq] at taken
          subst taken
          exact handleSave_overwriting _ before changes (by rw [sound.queued, sending]; rfl) queue
  | saveFailed =>
      cases sending : before.sending with
      | none => simp [step, sending] at taken
      | some changes =>
          simp only [step, sending, Option.isSome_some, if_true, Option.some.injEq] at taken
          subst taken
          exact handleSave_overwriting _ before changes (by rw [sound.queued, sending]; rfl) queue
  | fetched result =>
      simp only [step] at taken
      split at taken
      · cases taken
        obtain ⟨estimatedData, rebuilt⟩ := rebuild_changes
          (removeOldKeysAfterFetch result (mergeFromServerWithResult result before.object))
        simp only [handleFetchResultAsync, mergeAfterFetchWithResult]
        rw [rebuilt]
        exact ⟨queue.waiting, queue.unsaved⟩
      · cases taken

/-- A run that only sets and removes fields keeps the law whatever is answered. -/
theorem overwriting_sound (events : List (Event Value))
    (overwriting : machine.EachStep Overwriting events) :
    machine.Throughout (fun world => Sound world ∧ OverwritingQueue world.object) events :=
  throughout_of_eachStep machine _ Overwriting
    ⟨initial_sound, by simp [machine, objectWithClassName], overwritesAll_empty⟩
    (fun _ event before after both allowed taken =>
      ⟨(step_sound_iff event before after both.1 taken).mpr
        (overwriting_meets before event both.2 allowed),
        step_overwriting event before after both.1 both.2 allowed taken⟩)
    events overwriting

theorem overwriting_met (events : List (Event Value))
    (overwriting : machine.EachStep Overwriting events) : machine.EachStep Meets events := by
  intro before event world next inside reached taken
  have earlier : before <+: events := (List.prefix_append before [event]).trans inside
  exact overwriting_meets world event
    (overwriting_sound events overwriting before world earlier reached).2
    (overwriting before event world next inside reached taken)

/-- An object shows its edits in turn, however they fall between the saves that begin,
succeed and fail. -/
theorem shows_history (events : List (Event Value)) (world : World Value)
    (run : machine.Reaches events world) (met : machine.EachStep Meets events)
    (undisturbed : ∀ event ∈ events, Undisturbed event) (key : NSString) :
    world.object.objectForKey key = history key events none := by
  have sound := sound_throughout events met
  induction events using List.reverseRecOn generalizing world with
  | nil =>
      rw [(reaches_nil_iff machine world).mp run]
      rfl
  | append_singleton events event ih =>
      obtain ⟨soundBefore, soundAfter⟩ := (throughout_snoc_iff machine Sound events event).mp sound
      obtain ⟨before, reached, taken⟩ := (reaches_snoc_iff machine events event world).mp run
      have shown := ih before reached ((eachStep_snoc_iff machine Meets events event).mp met).1
        (fun other member => undisturbed other (List.mem_append_left _ member)) soundBefore
      have before_ := soundBefore events before (List.prefix_refl _) reached
      have after := soundAfter world run
      have allowed := undisturbed event (by simp)
      rw [history_append, ← shown]
      cases event with
      | edit change other =>
          cases taken
          exact edit_shows change other key before.object
      | revert childrenDirty => cases allowed
      | revertKey other => cases allowed
      | fetched result => cases allowed
      | save childrenDirty =>
          simp only [machine, step] at taken
          split at taken
          · cases taken
            simp only [saveAsync, history]
            split <;> rfl
          · cases taken
      | saveRaised =>
          simp only [machine, step] at taken
          split at taken
          · cases taken
            rfl
          · cases taken
      | saved result =>
          cases sending : before.sending with
          | none => simp [machine, step, sending] at taken
          | some changes =>
              simp only [machine, step, sending, Option.isSome_some, if_true,
                Option.some.injEq] at taken
              subst taken
              exact saved_unchanged result before changes sending before_ allowed after key
      | saveFailed =>
          simp only [machine, step] at taken
          split at taken
          · cases taken
            exact congrArg (AList.lookup key) (failedSave_estimates before.object)
          · cases taken

/-- A title set, sent, removed and set again while the save fails. -/
theorem shows_history_over_failed_save :
    ∃ world, machine.Reaches
        [.edit (.setObject (some (ParseValue.string "a"))) "title", .save false,
          .edit .removeObject "title", .edit (.setObject (some (.string "b"))) "title",
          .saveFailed] world ∧
      world.object.objectForKey "title" = history "title"
        [.edit (.setObject (some (ParseValue.string "a"))) "title", .save false,
          .edit .removeObject "title", .edit (.setObject (some (.string "b"))) "title",
          .saveFailed] none :=
  ⟨_, rfl, shows_history
    [.edit (.setObject (some (ParseValue.string "a"))) "title", .save false,
      .edit .removeObject "title", .edit (.setObject (some (.string "b"))) "title",
      .saveFailed]
    _ rfl (overwriting_met _ (eachStep_of_all _ _ _ (by simp [Overwriting])))
    (by simp [Undisturbed]) "title"⟩

end CollectionViewWorkshop.SavedObjects
