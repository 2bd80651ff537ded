import CollectionViewWorkshop.ParseObject
import CollectionViewWorkshop.PartialRuns

/-!
An object between its edits and the requests about it. Requests wait for each
other in the object's task queue, so one at a time is in flight, and edits fall
in between. An exception of the block that takes an answer ends up in its task
and is kept as the `failure` of the run. Whether the object shows what its
queued changes make of the server's data is a matter of the single steps.
-/

namespace CollectionViewWorkshop.ParseObjectRuns

open FieldOperations KeyedWrites ParseObject ParseValues PartialRuns

variable {Value : Type} [FieldValue Value] [DecidableEq Value]

structure World (Value : Type) where
  object : PFObject Value
  /-- The changes that were sent with the save in flight. -/
  sending : Option (PFOperationSet Value)
  failure : Option Raised

inductive Event (Value : Type) where
  | edit (change : Edit Value) (key : NSString)
  | revert (childrenDirty : Bool)
  | revertKey (key : NSString)
  | save (childrenDirty : Bool)
  | saveRaised
  | saved (result : ServerResult Value)
  | saveFailed
  | fetched (result : ServerResult Value)

/-- `saveAsync:`. Where only children are dirty nothing is sent for the object itself. -/
def saveAsync (childrenDirty : Bool) (world : World Value) : World Value :=
  if isDirty world.object || childrenDirty then
    { world with
      object := startSave world.object
      sending := if sendsItself world.object then some world.object.unsavedChanges else none }
  else world

def handleSaveResultAsync (result : Option (ServerResult Value)) (world : World Value) :
    World Value :=
  let (object, raised) := mergeAfterSaveWithResult result world.object
  ⟨object, none, world.failure.or raised⟩

def handleFetchResultAsync (result : ServerResult Value) (world : World Value) : World Value :=
  let (object, raised) := mergeAfterFetchWithResult result world.object
  ⟨object, world.sending, world.failure.or raised⟩

def step (world : World Value) : Event Value → Option (World Value)
  | .edit change key => some { world with object := (edit change key world.object).1 }
  | .revert childrenDirty =>
      some { world with object := (revert childrenDirty world.object).1 }
  | .revertKey key => some { world with object := (revertObjectForKey key world.object).1 }
  | .save childrenDirty =>
      if world.sending.isNone then some (saveAsync childrenDirty world) else none
  -- the children of a dirty object raise once its changes are pushed
  | .saveRaised =>
      if world.sending.isNone then some { world with object := startSave world.object }
      else none
  | .saved result =>
      if world.sending.isSome then some (handleSaveResultAsync (some result) world) else none
  | .saveFailed =>
      if world.sending.isSome then some (handleSaveResultAsync none world) else none
  -- an object that was never saved cannot be fetched
  | .fetched result =>
      if world.sending.isNone && world.object.objectId.isSome then
        some (handleFetchResultAsync result world)
      else none

def machine : Machine (World Value) (Event Value) where
  initial := ⟨objectWithClassName, none, none⟩
  step := step

/-! What an object shows is what its queue makes of the server's data. -/

def Tracks (object : PFObject Value) : Prop :=
  ∀ key, replayAt key object.operationSetQueue (object.serverData.lookup key) =
    .ok (object.objectForKey key)

def Replayable (object : PFObject Value) : Prop :=
  ∀ key, ∃ value,
    replayAt key object.operationSetQueue (object.serverData.lookup key) = .ok value

theorem Tracks.replayable (object : PFObject Value) (tracks : Tracks object) :
    Replayable object :=
  fun key => ⟨_, tracks key⟩

theorem rebuild_raises_iff (object : PFObject Value) :
    (rebuildEstimatedData object).2 = none ↔ Replayable object := by
  rw [Replayable, ← estimatedData_ok_iff, rebuildEstimatedData]
  cases estimatedDataFromServerData object.serverData object.operationSetQueue <;> simp

theorem rebuild_tracks_iff (object : PFObject Value) :
    Tracks (rebuildEstimatedData object).1 ↔ Replayable object := by
  rw [rebuildEstimatedData]
  cases estimated : estimatedDataFromServerData object.serverData object.operationSetQueue with
  | error raised =>
      constructor
      · exact Tracks.replayable object
      · intro replayable
        obtain ⟨estimatedData, built⟩ := (estimatedData_ok_iff _ _).mpr replayable
        simp [estimated] at built
  | ok estimatedData =>
      have spec := estimatedData_spec object.serverData estimatedData object.operationSetQueue
        estimated
      constructor
      · intro _ key
        exact ⟨_, spec key⟩
      · intro _
        exact spec

theorem queue_ok_iff (object : PFObject Value) (key : NSString) (result : Option Value) :
    replayAt key object.operationSetQueue (object.serverData.lookup key) = .ok result ↔
      ∃ base, replayAt key object.waiting (object.serverData.lookup key) = .ok base ∧
        writeAt applyToValue (object.unsavedChanges.lookup key) base = .ok result :=
  replayAt_snoc_ok_iff key object.waiting object.unsavedChanges _ result

/-- An operation that raises before it is applied, or is recorded as what it does. -/
def Records (operation : PFFieldOperation Value) (key : NSString) (object : PFObject Value) :
    Prop :=
  ∀ newValue previous base, applyToValue operation (object.objectForKey key) = .ok newValue →
    object.unsavedChanges.lookup key = some previous →
      replayAt key object.waiting (object.serverData.lookup key) = .ok base →
        (Follows operation previous → Regroups operation previous base) ∧
          (¬ Follows operation previous → newValue = object.objectForKey key)

theorem put_tracks_iff (object : PFObject Value) (key : NSString) (newValue base : Option Value)
    (changes : PFOperationSet Value) (tracks : Tracks object)
    (replayed : replayAt key object.waiting (object.serverData.lookup key) = .ok base)
    (elsewhere : ∀ other, other ≠ key →
      changes.lookup other = object.unsavedChanges.lookup other) :
    Tracks { object with
        estimatedData := put key newValue object.estimatedData
        unsavedChanges := changes } ↔
      writeAt applyToValue (changes.lookup key) base = .ok newValue := by
  constructor
  · intro all
    obtain ⟨same, again, written⟩ := (queue_ok_iff _ key _).mp (all key)
    rw [replayed] at again
    cases again
    simpa [PFObject.objectForKey] using written
  · intro written other
    rw [queue_ok_iff]
    by_cases same : other = key
    · subst same
      exact ⟨base, replayed, by simpa [PFObject.objectForKey] using written⟩
    · have old := (queue_ok_iff object other _).mp (tracks other)
      simpa [PFObject.objectForKey, elsewhere other same, same] using old

theorem perform_tracks_iff (operation : PFFieldOperation Value) (key : NSString)
    (object : PFObject Value) (tracks : Tracks object) :
    Tracks (performOperation operation key object).1 ↔ Records operation key object := by
  obtain ⟨base, replayed, written⟩ := (queue_ok_iff object key _).mp (tracks key)
  cases applied : applyToValue operation (object.estimatedData.lookup key) with
  | error raised => simp [performOperation, applied, tracks, Records, PFObject.objectForKey]
  | ok newValue =>
      cases found : object.unsavedChanges.lookup key with
      | none =>
          rw [found, writeAt_none] at written
          cases written
          simp only [performOperation, applied, found, mergeWithPrevious]
          rw [put_tracks_iff object key newValue _ _ tracks replayed fun other different => by
            simp [different]]
          simpa [Records, found, PFObject.objectForKey] using applied
      | some previous =>
          rw [found, writeAt_some] at written
          have onlyHere : Records operation key object ↔
              (Follows operation previous → Regroups operation previous base) ∧
                (¬ Follows operation previous → newValue = object.objectForKey key) := by
            simp [Records, PFObject.objectForKey, applied, found, replayed]
          rw [onlyHere]
          cases merges : mergeAfter operation previous with
          | error raised =>
              have unable : ¬ Follows operation previous := by
                rw [← mergeAfter_ok_iff, merges]
                simp
              -- the estimate has changed and the changes have not
              simp only [performOperation, applied, found, mergeWithPrevious, merges]
              rw [put_tracks_iff object key newValue base _ tracks replayed fun _ _ => rfl]
              simp [found, written, unable, eq_comm]
          | ok merged =>
              have follows : Follows operation previous :=
                (mergeAfter_ok_iff operation previous).mp ⟨merged, merges⟩
              have keeps := apply_merged_iff operation previous merged base _ merges written
              simp only [performOperation, applied, found, mergeWithPrevious, merges]
              rw [put_tracks_iff object key newValue base _ tracks replayed fun other different => by
                simp [different]]
              rw [AList.lookup_insert, writeAt_some, ← applied]
              exact keeps.trans (by simp [follows])

def operationOf (change : Edit Value) (shown : Option Value) : Option (PFFieldOperation Value) :=
  match change with
  | .setObject value => value.map .set
  | .removeObject => shown.map fun _ => .delete
  | .incrementByAmount amount => some (.increment amount)
  | .addObjectsFromArray objects => some (.add objects)
  | .addUniqueObjectsFromArray objects => some (addUniqueWithObjects objects)
  | .removeObjectsInArray objects => some (.remove objects)

theorem edit_eq (change : Edit Value) (key : NSString) (object : PFObject Value) :
    (edit change key object).1 =
      match operationOf change (object.objectForKey key) with
      | some operation => (performOperation operation key object).1
      | none => object := by
  cases change with
  | setObject value => cases value <;> rfl
  | removeObject =>
      cases shown : object.objectForKey key <;>
        simp [edit, removeObjectForKey, operationOf, shown]
  | incrementByAmount amount => rfl
  | addObjectsFromArray objects => rfl
  | addUniqueObjectsFromArray objects => rfl
  | removeObjectsInArray objects => rfl

theorem edit_tracks_iff (change : Edit Value) (key : NSString) (object : PFObject Value)
    (tracks : Tracks object) :
    Tracks (edit change key object).1 ↔
      ∀ operation, operationOf change (object.objectForKey key) = some operation →
        Records operation key object := by
  rw [edit_eq]
  cases asked : operationOf change (object.objectForKey key) with
  | none => simp [tracks]
  | some operation => simp [perform_tracks_iff operation key object tracks]

theorem replayable_without (object : PFObject Value) (changes : PFOperationSet Value)
    (tracks : Tracks object)
    (fewer : ∀ key, changes.lookup key = none ∨
      changes.lookup key = object.unsavedChanges.lookup key) :
    Replayable { object with unsavedChanges := changes } := by
  intro key
  obtain ⟨base, replayed, written⟩ := (queue_ok_iff object key _).mp (tracks key)
  rcases fewer key with gone | same
  · exact ⟨base, (queue_ok_iff _ key base).mpr ⟨base, replayed, by rw [gone, writeAt_none]⟩⟩
  · exact ⟨_, (queue_ok_iff _ key _).mpr ⟨base, replayed, by rw [same, written]⟩⟩

theorem revert_tracks (childrenDirty : Bool) (object : PFObject Value) (tracks : Tracks object) :
    Tracks (revert childrenDirty object).1 := by
  rw [revert]
  cases isDirty object || childrenDirty with
  | false => exact tracks
  | true =>
      exact (rebuild_tracks_iff _).mpr
        (replayable_without object ∅ tracks fun _ => Or.inl (AList.lookup_empty _))

theorem revertObjectForKey_tracks (key : NSString) (object : PFObject Value)
    (tracks : Tracks object) : Tracks (revertObjectForKey key object).1 := by
  rw [revertObjectForKey]
  cases object.unsavedChanges.lookup key with
  | none => exact tracks
  | some operation =>
      apply (rebuild_tracks_iff _).mpr
      apply replayable_without object _ tracks
      intro other
      by_cases same : other = key
      · subst same
        exact Or.inl (AList.lookup_erase other _)
      · exact Or.inr (AList.lookup_erase_ne same)

theorem startSave_tracks (object : PFObject Value) (tracks : Tracks object) :
    Tracks (startSave object) := by
  intro key
  rw [queue_ok_iff]
  exact ⟨_, tracks key, by rw [startSave, AList.lookup_empty, writeAt_none]; rfl⟩

/-! The answers to saves and fetches. -/

/-- A field the service changed must take the operations that are still queued. -/
def Takes (result : ServerResult Value) (queue : List (PFOperationSet Value)) : Prop :=
  ∀ key field, result.fields.lookup key = some field →
    ∃ value, replayAt key queue (some field) = .ok value

theorem first_applies (operationsBeforeSave : PFOperationSet Value)
    (rest : List (PFOperationSet Value)) (object : PFObject Value)
    (waiting : object.waiting = operationsBeforeSave :: rest) (tracks : Tracks object) :
    (applyOperationSet operationsBeforeSave object.serverData).2 = none ∧ ∀ key,
      replayAt key (rest ++ [object.unsavedChanges])
          ((applyOperationSet operationsBeforeSave object.serverData).1.lookup key) =
        .ok (object.objectForKey key) := by
  -- the set that was saved can be applied, and the others go on from there
  have first : ∀ key, ∃ middle,
      writeAt applyToValue (operationsBeforeSave.lookup key) (object.serverData.lookup key) =
          .ok middle ∧
        replayAt key (rest ++ [object.unsavedChanges]) middle = .ok (object.objectForKey key) := by
    intro key
    have queued := tracks key
    rw [PFObject.operationSetQueue, waiting, List.cons_append, replayAt_cons_ok_iff] at queued
    exact queued
  have done : (applyOperationSet operationsBeforeSave object.serverData).2 = none :=
    (writeAll_done_iff _ _ _).mpr fun key => (first key).imp fun _ both => both.1
  refine ⟨done, fun key => ?_⟩
  obtain ⟨middle, written, replayed⟩ := first key
  have spec := writeAll_spec applyToValue operationsBeforeSave object.serverData done key
  rw [written] at spec
  rw [applyOperationSet, ← Except.ok.inj spec]
  exact replayed

theorem successfulSave_replayable_iff (result : ServerResult Value)
    (operationsBeforeSave : PFOperationSet Value) (rest : List (PFOperationSet Value))
    (object : PFObject Value) (waiting : object.waiting = operationsBeforeSave :: rest)
    (tracks : Tracks object) :
    let next := (mergeAfterSuccessfulSave result operationsBeforeSave rest object)
    (next.2 = none ↔ Takes result (rest ++ [object.unsavedChanges])) ∧
      (Tracks next.1 ↔ Takes result (rest ++ [object.unsavedChanges])) := by
  obtain ⟨done, replayed⟩ := first_applies operationsBeforeSave rest object waiting tracks
  cases applied : applyOperationSet operationsBeforeSave object.serverData with
  | mk serverData raised =>
      simp only [applied] at done replayed
      subst done
      simp only [mergeAfterSuccessfulSave, applied, rebuild_raises_iff, rebuild_tracks_iff,
        and_self]
      -- a field of the result stands for the operations that were saved
      apply forall_congr'
      intro key
      simp only [mergeFromServerWithResult, PFObject.operationSetQueue, lookup_union]
      cases field : result.fields.lookup key with
      | none => simp [replayed]
      | some value => simp

omit [FieldValue Value] [DecidableEq Value] in
theorem fetched_fields (result : ServerResult Value) (object : PFObject Value)
    (key : NSString) :
    (removeOldKeysAfterFetch result
        (mergeFromServerWithResult result object)).serverData.lookup key =
      result.fields.lookup key := by
  simp only [removeOldKeysAfterFetch, mergeFromServerWithResult, lookup_erased, lookup_union,
    List.mem_filter, ← AList.mem_keys, AList.mem_union, decide_eq_true_eq]
  by_cases named : key ∈ result.fields
  · obtain ⟨value, found⟩ := Option.isSome_iff_exists.mp (AList.lookup_isSome.mpr named)
    simp [named, found]
  · have absent := AList.lookup_eq_none.mpr named
    by_cases old : key ∈ object.serverData
    · simp [named, old, absent]
    · simp [named, old, absent, AList.lookup_eq_none.mpr old]

theorem fetch_replayable_iff (result : ServerResult Value) (object : PFObject Value) :
    let next := mergeAfterFetchWithResult result object
    let fetched := ∀ key, ∃ value,
      replayAt key object.operationSetQueue (result.fields.lookup key) = .ok value
    (next.2 = none ↔ fetched) ∧ (Tracks next.1 ↔ fetched) := by
  simp only [mergeAfterFetchWithResult, rebuild_raises_iff, rebuild_tracks_iff, Replayable,
    fetched_fields]
  exact ⟨Iff.rfl, Iff.rfl⟩

def AllFollow (earlier later : PFOperationSet Value) : Prop :=
  ∀ key previous operation, earlier.lookup key = some previous →
    later.lookup key = some operation → Follows operation previous

def AllRegroup (earlier later : PFOperationSet Value) (serverData : NSDictionary Value) : Prop :=
  ∀ key previous operation, earlier.lookup key = some previous →
    later.lookup key = some operation → Regroups operation previous (serverData.lookup key)

theorem mergeOperationSet_raises_iff (later earlier : PFOperationSet Value) :
    (mergeOperationSet later earlier).2 = none ↔ AllFollow earlier later := by
  rw [mergeOperationSet, writeAll_done_iff]
  apply forall_congr'
  intro key
  cases before : earlier.lookup key with
  | none => simp
  | some previous =>
      cases after : later.lookup key with
      | none => simp [mergeOperation]
      | some operation =>
          have follows := mergeAfter_ok_iff operation previous
          cases merges : mergeAfter operation previous <;>
            simp_all [mergeOperation, mergeWithPrevious, Except.map]

/-- A merged set does at a key what the two sets did in turn exactly if they regroup there. -/
theorem mergedSet_at_iff (earlier later merged : PFOperationSet Value)
    (merges : mergeOperationSet later earlier = (merged, none)) (key : NSString)
    (base middle : Option Value)
    (applied : writeAt applyToValue (earlier.lookup key) base = .ok middle) :
    writeAt applyToValue (merged.lookup key) base =
        writeAt applyToValue (later.lookup key) middle ↔
      ∀ previous operation, earlier.lookup key = some previous →
        later.lookup key = some operation → Regroups operation previous base := by
  have spec := writeAll_spec mergeOperation earlier later
  rw [← mergeOperationSet, merges] at spec
  have here := spec rfl key
  cases before : earlier.lookup key with
  | none =>
      rw [before, writeAt_none] at here applied
      cases applied
      rw [← Except.ok.inj here]
      simp
  | some previous =>
      rw [before, writeAt_some] at here applied
      cases after : later.lookup key with
      | none =>
          rw [after] at here
          rw [← Except.ok.inj here, writeAt_some, writeAt_none, applied]
          simp
      | some operation =>
          rw [after] at here
          cases one : mergeAfter operation previous with
          | error raised => simp [mergeOperation, mergeWithPrevious, one, Except.map] at here
          | ok together =>
              have same : some together = merged.lookup key := by
                simpa [mergeOperation, mergeWithPrevious, one, Except.map] using here
              rw [← same, writeAt_some, writeAt_some,
                apply_merged_iff operation previous together base middle one applied]
              simp

theorem failedSave_tracks_iff (operationsBeforeSave : PFOperationSet Value)
    (object : PFObject Value) (waiting : object.waiting = [operationsBeforeSave])
    (tracks : Tracks object)
    (follow : AllFollow operationsBeforeSave object.unsavedChanges) :
    Tracks (mergeAfterFailedSave operationsBeforeSave [] object).1 ↔
      AllRegroup operationsBeforeSave object.unsavedChanges object.serverData := by
  have done := (mergeOperationSet_raises_iff _ _).mpr follow
  cases merges : mergeOperationSet object.unsavedChanges operationsBeforeSave with
  | mk merged raised =>
      rw [merges] at done
      cases done
      simp only [mergeAfterFailedSave, merges]
      apply forall_congr'
      intro key
      obtain ⟨middle, replayed, written⟩ := (queue_ok_iff object key _).mp (tracks key)
      rw [waiting, replayAt_cons_ok_iff] at replayed
      obtain ⟨first, applied, same⟩ := replayed
      cases same
      rw [← mergedSet_at_iff operationsBeforeSave object.unsavedChanges merged merges key _ middle
        applied, written]
      simp [queue_ok_iff, PFObject.objectForKey]

/-- The object shows what its queue makes of the server's data, the queue holds the
changes in flight before the unsaved ones, and no answer was lost to an exception. Nothing
here deletes an object. -/
structure Sound (world : World Value) : Prop where
  tracks : Tracks world.object
  queued : world.object.waiting = world.sending.toList
  undeleted : world.object.deleted = false
  unfailed : world.failure = none

/-- The condition on single steps: what is edited is recorded, a save sends something
unless nothing is dirty and does not raise, and what is queued takes the answers. -/
def Meets (_ : List (Event Value)) (world : World Value) : Event Value → Prop
  | .edit change key =>
      ∀ operation, operationOf change (world.object.objectForKey key) = some operation →
        Records operation key world.object
  | .save childrenDirty => childrenDirty = true → isDirty world.object = true
  | .saveRaised => False
  | .saved result => Takes result [world.object.unsavedChanges]
  | .saveFailed =>
      ∀ changes, world.sending = some changes →
        AllFollow changes world.object.unsavedChanges ∧
          AllRegroup changes world.object.unsavedChanges world.object.serverData
  | .fetched result =>
      ∀ key, ∃ value,
        replayAt key world.object.operationSetQueue (result.fields.lookup key) = .ok value
  | _ => True

def Keeps (object after : PFObject Value) : Prop :=
  after.waiting = object.waiting ∧ after.deleted = object.deleted

theorem edit_keeps (change : Edit Value) (key : NSString) (object : PFObject Value) :
    Keeps object (edit change key object).1 := by
  have performed : ∀ operation, Keeps object (performOperation operation key object).1 := by
    intro operation
    simp only [performOperation]
    split
    · exact ⟨rfl, rfl⟩
    · split <;> exact ⟨rfl, rfl⟩
  rw [edit_eq]
  split
  · exact performed _
  · exact ⟨rfl, rfl⟩

theorem rebuild_keeps (object : PFObject Value) :
    Keeps object (rebuildEstimatedData object).1 := by
  rw [rebuildEstimatedData]
  split <;> exact ⟨rfl, rfl⟩

theorem revert_keeps (childrenDirty : Bool) (object : PFObject Value) :
    Keeps object (revert childrenDirty object).1 := by
  rw [revert]
  split
  · exact rebuild_keeps _
  · exact ⟨rfl, rfl⟩

theorem revertObjectForKey_keeps (key : NSString) (object : PFObject Value) :
    Keeps object (revertObjectForKey key object).1 := by
  rw [revertObjectForKey]
  split
  · exact rebuild_keeps _
  · exact ⟨rfl, rfl⟩

theorem fetch_keeps (result : ServerResult Value) (object : PFObject Value) :
    Keeps object (mergeAfterFetchWithResult result object).1 :=
  rebuild_keeps _

theorem Keeps.sound (world : World Value) (sound : Sound world) (object : PFObject Value)
    (keeps : Keeps world.object object) (tracks : Tracks object) :
    Sound { world with object := object } :=
  ⟨tracks, keeps.1.trans sound.queued, keeps.2.trans sound.undeleted, sound.unfailed⟩

omit [FieldValue Value] [DecidableEq Value] in
theorem isDirty_eq (object : PFObject Value) (undeleted : object.deleted = false) :
    isDirty object = sendsItself object := by
  rw [isDirty, undeleted, Bool.false_or, sendsItself]

theorem saveAsync_sound_iff (childrenDirty : Bool) (world : World Value) (sound : Sound world)
    (idle : world.sending = none) :
    Sound (saveAsync childrenDirty world) ↔ Meets [] world (.save childrenDirty) := by
  have empty : world.object.waiting = [] := by
    rw [sound.queued, idle]
    rfl
  have started := startSave_tracks world.object sound.tracks
  have own := isDirty_eq world.object sound.undeleted
  cases sends : sendsItself world.object with
  | true =>
      simp only [saveAsync, own, sends, Bool.true_or, if_true, Meets, implies_true, iff_true]
      exact ⟨started, by simp [startSave, PFObject.operationSetQueue, empty], sound.undeleted,
        sound.unfailed⟩
  | false =>
      cases childrenDirty with
      | false => simpa [saveAsync, own, sends, Meets] using sound
      | true =>
          -- the set that was pushed is left behind
          simp only [saveAsync, own, sends, Bool.false_or, if_true, Meets, Bool.false_eq_true,
            imp_false, not_true, iff_false]
          intro broken
          simpa [startSave, PFObject.operationSetQueue] using broken.queued

theorem saved_sound_iff (result : ServerResult Value) (world : World Value) (sound : Sound world)
    (changes : PFOperationSet Value) (inFlight : world.sending = some changes) :
    Sound (handleSaveResultAsync (some result) world) ↔ Meets [] world (.saved result) := by
  have waiting : world.object.waiting = [changes] := by
    rw [sound.queued, inFlight]
    rfl
  obtain ⟨raises, tracks⟩ := successfulSave_replayable_iff result changes [] world.object waiting
    sound.tracks
  have popped : Keeps { world.object with waiting := [] }
      (mergeAfterSuccessfulSave result changes [] world.object).1 := by
    rw [mergeAfterSuccessfulSave]
    split
    · exact ⟨rfl, rfl⟩
    · exact rebuild_keeps _
  have next : handleSaveResultAsync (some result) world =
      ⟨(mergeAfterSuccessfulSave result changes [] world.object).1, none,
        world.failure.or (mergeAfterSuccessfulSave result changes [] world.object).2⟩ := by
    simp [handleSaveResultAsync, mergeAfterSaveWithResult, waiting]
  rw [next]
  constructor
  · intro after
    exact tracks.mp after.tracks
  · intro takes
    exact ⟨tracks.mpr takes, popped.1, popped.2.trans sound.undeleted, by
      rw [sound.unfailed, raises.mpr takes]
      rfl⟩

theorem saveFailed_sound_iff (world : World Value) (sound : Sound world)
    (changes : PFOperationSet Value) (inFlight : world.sending = some changes) :
    Sound (handleSaveResultAsync none world) ↔ Meets [] world .saveFailed := by
  have waiting : world.object.waiting = [changes] := by
    rw [sound.queued, inFlight]
    rfl
  have next : handleSaveResultAsync none world =
      ⟨(mergeAfterFailedSave changes [] world.object).1, none,
        world.failure.or (mergeOperationSet world.object.unsavedChanges changes).2⟩ := by
    simp [handleSaveResultAsync, mergeAfterSaveWithResult, waiting, mergeAfterFailedSave]
  have raises := mergeOperationSet_raises_iff world.object.unsavedChanges changes
  have tracks := failedSave_tracks_iff changes world.object waiting sound.tracks
  rw [next]
  simp only [Meets, inFlight, Option.some.injEq, forall_eq']
  constructor
  · intro after
    have follow : AllFollow changes world.object.unsavedChanges := by
      rw [← raises]
      simpa [sound.unfailed] using after.unfailed
    exact ⟨follow, (tracks follow).mp after.tracks⟩
  · rintro ⟨follow, regroup⟩
    exact ⟨(tracks follow).mpr regroup, rfl, sound.undeleted, by
      rw [sound.unfailed, raises.mpr follow]
      rfl⟩

theorem fetched_sound_iff (result : ServerResult Value) (world : World Value)
    (sound : Sound world) :
    Sound (handleFetchResultAsync result world) ↔ Meets [] world (.fetched result) := by
  obtain ⟨raises, tracks⟩ := fetch_replayable_iff result world.object
  constructor
  · intro after
    exact tracks.mp after.tracks
  · intro fits
    have keeps := fetch_keeps result world.object
    exact ⟨tracks.mpr fits, keeps.1.trans sound.queued, keeps.2.trans sound.undeleted, by
      simp [handleFetchResultAsync, sound.unfailed, raises.mpr fits]⟩

theorem step_sound_iff (event : Event Value) (before after : World Value) (sound : Sound before)
    (taken : step before event = some after) : Sound after ↔ Meets [] before event := by
  cases event with
  | edit change key =>
      cases taken
      rw [Meets, ← edit_tracks_iff change key before.object sound.tracks]
      constructor
      · intro after
        exact after.tracks
      · exact (edit_keeps change key before.object).sound before sound _
  | revert childrenDirty =>
      cases taken
      exact iff_of_true ((revert_keeps childrenDirty before.object).sound before sound _
        (revert_tracks childrenDirty before.object sound.tracks)) trivial
  | revertKey key =>
      cases taken
      exact iff_of_true ((revertObjectForKey_keeps key before.object).sound before sound _
        (revertObjectForKey_tracks key before.object sound.tracks)) trivial
  | save childrenDirty =>
      cases sending : before.sending with
      | some changes => simp [step, sending] at taken
      | none =>
          simp only [step, sending, Option.isNone_none, if_true, Option.some.injEq] at taken
          subst taken
          exact saveAsync_sound_iff childrenDirty before sound sending
  | saveRaised =>
      cases sending : before.sending with
      | some changes => simp [step, sending] at taken
      | none =>
          simp only [step, sending, Option.isNone_none, if_true, Option.some.injEq] at taken
          subst taken
          refine iff_of_false (fun broken => ?_) id
          simpa [startSave, PFObject.operationSetQueue, sending] using broken.queued
  | saved result =>
      cases sending : before.sending with
      | none => simp [step, sending] at taken
      | some changes =>
          simp only [step, sending, Option.isSome_some, if_true, Option.some.injEq] at taken
          subst taken
          exact saved_sound_iff result before sound changes sending
  | saveFailed =>
      cases sending : before.sending with
      | none => simp [step, sending] at taken
      | some changes =>
          simp only [step, sending, Option.isSome_some, if_true, Option.some.injEq] at taken
          subst taken
          exact saveFailed_sound_iff before sound changes sending
  | fetched result =>
      simp only [step] at taken
      split at taken
      · cases taken
        exact fetched_sound_iff result before sound
      · cases taken

theorem initial_sound : Sound (machine : Machine (World Value) (Event Value)).initial :=
  ⟨fun _ => rfl, rfl, rfl, rfl⟩

theorem sound_throughout (events : List (Event Value)) (met : machine.EachStep Meets events) :
    machine.Throughout Sound events :=
  throughout_of_eachStep machine Sound Meets initial_sound
    (fun _ event before after sound met taken =>
      (step_sound_iff event before after sound taken).mpr met)
    events met

/-- A run keeps the law exactly while its steps meet the condition. -/
theorem sound_throughout_iff (events : List (Event Value)) :
    machine.Throughout Sound events ↔ machine.EachStep Meets events :=
  throughout_iff_eachStep machine Sound Meets initial_sound
    (fun _ event before after _ sound taken => step_sound_iff event before after sound taken)
    events

end CollectionViewWorkshop.ParseObjectRuns
