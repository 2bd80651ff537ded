import CollectionViewWorkshop.FieldOperations
import CollectionViewWorkshop.KeyedWrites

/-!
`PFObject` with the operation sets it keeps (`PFOperationSet`), its server data
and the data it estimates from both (`PFObjectEstimatedData`). The last set of
`operationSetQueue` is always there and is kept apart as `unsavedChanges`. An
exception ends the method it was raised in and leaves what was done before it.

A result of the service is taken after its fields were decoded. Left out are
the local datastore, the default access list, relations, fetched and available
keys, and the date and the identifier of an operation set. `deleted` is set by a
deletion, which is left out as well.
-/

namespace CollectionViewWorkshop.ParseObject

open FieldOperations FieldValue KeyedWrites ParseValues

variable {Value : Type} [FieldValue Value] [DecidableEq Value]

abbrev NSDictionary (Value : Type) := Dictionary NSString Value
abbrev PFOperationSet (Value : Type) := NSDictionary (PFFieldOperation Value)

structure PFObject (Value : Type) where
  objectId : Option NSString
  createdAt : Option NSString
  updatedAt : Option NSString
  serverData : NSDictionary Value
  /-- `operationSetQueue` up to its last set. -/
  waiting : List (PFOperationSet Value)
  unsavedChanges : PFOperationSet Value
  estimatedData : NSDictionary Value
  dirty : Bool
  deleted : Bool

/-- What the service answers a save or a fetch with. -/
structure ServerResult (Value : Type) where
  objectId : Option NSString
  createdAt : Option NSString
  updatedAt : Option NSString
  fields : NSDictionary Value

def PFObject.operationSetQueue (object : PFObject Value) : List (PFOperationSet Value) :=
  object.waiting ++ [object.unsavedChanges]

def PFObject.objectForKey (object : PFObject Value) (key : NSString) : Option Value :=
  object.estimatedData.lookup key

/-- `[PFObject objectWithClassName:]` without a default access list. -/
def objectWithClassName : PFObject Value where
  objectId := none
  createdAt := none
  updatedAt := none
  serverData := ∅
  waiting := []
  unsavedChanges := ∅
  estimatedData := ∅
  dirty := true
  deleted := false

def applyOperationSet (operationSet : PFOperationSet Value) (dictionary : NSDictionary Value) :
    NSDictionary Value × Option Raised :=
  writeAll applyToValue operationSet dictionary

/-- One key of `mergeOperationSet:`; the other set came before. -/
def mergeOperation (remoteOperation : PFFieldOperation Value)
    (localOperation : Option (PFFieldOperation Value)) :
    Except Raised (Option (PFFieldOperation Value)) :=
  match localOperation with
  | some operation => (mergeWithPrevious operation (some remoteOperation)).map some
  | none => .ok (some remoteOperation)

def mergeOperationSet (operationSet other : PFOperationSet Value) :
    PFOperationSet Value × Option Raised :=
  writeAll mergeOperation other operationSet

def estimatedDataFromServerData (serverData : NSDictionary Value) :
    List (PFOperationSet Value) → Except Raised (NSDictionary Value)
  | [] => .ok serverData
  | operationSet :: rest =>
      match applyOperationSet operationSet serverData with
      | (_, some raised) => .error raised
      | (applied, none) => estimatedDataFromServerData applied rest

def rebuildEstimatedData (object : PFObject Value) : PFObject Value × Option Raised :=
  match estimatedDataFromServerData object.serverData object.operationSetQueue with
  | .ok estimatedData => ({ object with estimatedData := estimatedData }, none)
  | .error raised => (object, some raised)

-- the estimate has changed by the time the merge may raise
def performOperation (operation : PFFieldOperation Value) (key : NSString)
    (object : PFObject Value) : PFObject Value × Option Raised :=
  match applyToValue operation (object.estimatedData.lookup key) with
  | .error raised => (object, some raised)
  | .ok newValue =>
      let applied := { object with estimatedData := put key newValue object.estimatedData }
      match mergeWithPrevious operation (object.unsavedChanges.lookup key) with
      | .error raised => (applied, some raised)
      | .ok newOperation =>
          ({ applied with unsavedChanges := object.unsavedChanges.insert key newOperation }, none)

def nilArgument : Raised :=
  .invalidArgument "Can't use nil for keys or values on PFObject. Use NSNull for values."

def setObjectForKey (value : Option Value) (key : NSString) (object : PFObject Value) :
    PFObject Value × Option Raised :=
  match value with
  | some value => performOperation (.set value) key object
  | none => (object, some nilArgument)

def removeObjectForKey (key : NSString) (object : PFObject Value) :
    PFObject Value × Option Raised :=
  match object.objectForKey key with
  | some _ => performOperation .delete key object
  | none => (object, none)

inductive Edit (Value : Type) where
  | setObject (value : Option Value)
  | removeObject
  | incrementByAmount (amount : Numbers.NSNumber)
  | addObjectsFromArray (objects : List Value)
  | addUniqueObjectsFromArray (objects : List Value)
  | removeObjectsInArray (objects : List Value)

def edit (change : Edit Value) (key : NSString) : PFObject Value → PFObject Value × Option Raised :=
  match change with
  | .setObject value => setObjectForKey value key
  | .removeObject => removeObjectForKey key
  | .incrementByAmount amount => performOperation (.increment amount) key
  | .addObjectsFromArray objects => performOperation (.add objects) key
  | .addUniqueObjectsFromArray objects => performOperation (addUniqueWithObjects objects) key
  | .removeObjectsInArray objects => performOperation (.remove objects) key

def hasChanges (object : PFObject Value) : Bool :=
  !object.unsavedChanges.keys.isEmpty

/-- `isDirty:NO`. -/
def isDirty (object : PFObject Value) : Bool :=
  object.deleted || object.dirty || hasChanges object

def sendsItself (object : PFObject Value) : Bool :=
  object.dirty || hasChanges object

def revert (childrenDirty : Bool) (object : PFObject Value) : PFObject Value × Option Raised :=
  if isDirty object || childrenDirty then
    rebuildEstimatedData { object with unsavedChanges := ∅ }
  else (object, none)

def revertObjectForKey (key : NSString) (object : PFObject Value) :
    PFObject Value × Option Raised :=
  match object.unsavedChanges.lookup key with
  | some _ => rebuildEstimatedData
      { object with unsavedChanges := object.unsavedChanges.erase key }
  | none => (object, none)

def startSave (object : PFObject Value) : PFObject Value :=
  { object with
    waiting := object.operationSetQueue
    unsavedChanges := ∅ }

def mergeFromServerWithResult (result : ServerResult Value) (object : PFObject Value) :
    PFObject Value :=
  let createdAt := result.createdAt.or object.createdAt
  { object with
    objectId := result.objectId.or object.objectId
    createdAt := createdAt
    updatedAt := (result.updatedAt.or object.updatedAt).or createdAt
    serverData := result.fields ∪ object.serverData
    dirty := false }

/-- The failed save's changes go into the save that comes next. -/
def mergeAfterFailedSave (operationsBeforeSave : PFOperationSet Value)
    (rest : List (PFOperationSet Value)) (object : PFObject Value) :
    PFObject Value × Option Raised :=
  match rest with
  | [] =>
      let (merged, raised) := mergeOperationSet object.unsavedChanges operationsBeforeSave
      ({ object with waiting := [], unsavedChanges := merged }, raised)
  | operationsForNextSave :: later =>
      let (merged, raised) := mergeOperationSet operationsForNextSave operationsBeforeSave
      ({ object with waiting := merged :: later }, raised)

-- the state is replaced only once the whole set was applied to a copy of it
def mergeAfterSuccessfulSave (result : ServerResult Value)
    (operationsBeforeSave : PFOperationSet Value) (rest : List (PFOperationSet Value))
    (object : PFObject Value) : PFObject Value × Option Raised :=
  match applyOperationSet operationsBeforeSave object.serverData with
  | (_, some raised) => ({ object with waiting := rest }, some raised)
  | (serverData, none) =>
      rebuildEstimatedData (mergeFromServerWithResult result
        { object with waiting := rest, serverData := serverData })

/-- `_mergeAfterSaveWithResult:decoder:`; a save that failed has no result. The
queue holds the changes of the save in flight before its last set. -/
def mergeAfterSaveWithResult (result : Option (ServerResult Value)) (object : PFObject Value) :
    PFObject Value × Option Raised :=
  match object.waiting, result with
  | [], _ => (object, some (.internalInconsistency "index 0 beyond bounds for empty array"))
  | operationsBeforeSave :: rest, none =>
      mergeAfterFailedSave operationsBeforeSave rest object
  | operationsBeforeSave :: rest, some result =>
      mergeAfterSuccessfulSave result operationsBeforeSave rest object

/-- The fields the result does not name are gone. -/
def removeOldKeysAfterFetch (result : ServerResult Value) (object : PFObject Value) :
    PFObject Value :=
  let removedKeys := object.serverData.keys.filter fun key => key ∉ result.fields.keys
  { object with serverData := removedKeys.foldl (fun data key => data.erase key) object.serverData }

def mergeAfterFetchWithResult (result : ServerResult Value) (object : PFObject Value) :
    PFObject Value × Option Raised :=
  rebuildEstimatedData (removeOldKeysAfterFetch result (mergeFromServerWithResult result object))

/-! The operation sets of a queue, replayed at one key. -/

def replayAt (key : NSString) (sets : List (PFOperationSet Value)) (value : Option Value) :
    Except Raised (Option Value) :=
  sets.foldlM (fun value operationSet => writeAt applyToValue (operationSet.lookup key) value)
    value

@[simp] theorem replayAt_nil (key : NSString) (value : Option Value) :
    replayAt key ([] : List (PFOperationSet Value)) value = .ok value := rfl

theorem replayAt_cons (key : NSString) (operationSet : PFOperationSet Value)
    (rest : List (PFOperationSet Value)) (value : Option Value) :
    replayAt key (operationSet :: rest) value =
      (writeAt applyToValue (operationSet.lookup key) value).bind (replayAt key rest) := rfl

theorem replayAt_append (key : NSString) (first second : List (PFOperationSet Value))
    (value : Option Value) :
    replayAt key (first ++ second) value =
      (replayAt key first value).bind (replayAt key second) :=
  List.foldlM_append

theorem replayAt_cons_ok_iff (key : NSString) (operationSet : PFOperationSet Value)
    (rest : List (PFOperationSet Value)) (value result : Option Value) :
    replayAt key (operationSet :: rest) value = .ok result ↔
      ∃ middle, writeAt applyToValue (operationSet.lookup key) value = .ok middle ∧
        replayAt key rest middle = .ok result := by
  rw [replayAt_cons]
  cases writeAt applyToValue (operationSet.lookup key) value <;> simp [Except.bind]

theorem replayAt_snoc_ok_iff (key : NSString) (sets : List (PFOperationSet Value))
    (operationSet : PFOperationSet Value) (value result : Option Value) :
    replayAt key (sets ++ [operationSet]) value = .ok result ↔
      ∃ base, replayAt key sets value = .ok base ∧
        writeAt applyToValue (operationSet.lookup key) base = .ok result := by
  rw [replayAt_append]
  cases replayAt key sets value with
  | error raised => simp [Except.bind]
  | ok base =>
      simp only [Except.bind, replayAt_cons_ok_iff, replayAt_nil, Except.ok.injEq]
      simp

/-- The estimate is there exactly when every key can be replayed, and then it is the replay. -/
theorem estimatedData_ok_iff (serverData : NSDictionary Value)
    (sets : List (PFOperationSet Value)) :
    (∃ estimatedData, estimatedDataFromServerData serverData sets = .ok estimatedData) ↔
      ∀ key, ∃ value, replayAt key sets (serverData.lookup key) = .ok value := by
  induction sets generalizing serverData with
  | nil => simp [estimatedDataFromServerData]
  | cons operationSet rest ih =>
      simp only [replayAt_cons_ok_iff]
      cases applied : applyOperationSet operationSet serverData with
      | mk dictionary raised =>
          have done := writeAll_done_iff applyToValue operationSet serverData
          have at_ := writeAll_spec applyToValue operationSet serverData
          rw [← applyOperationSet, applied] at done at_
          cases raised with
          | some raised =>
              simp only [estimatedDataFromServerData, applied, reduceCtorEq, exists_const,
                false_iff]
              intro all
              refine absurd (done.mpr fun key => ?_) (by simp)
              obtain ⟨value, middle, written, -⟩ := all key
              exact ⟨middle, written⟩
          | none =>
              simp only [estimatedDataFromServerData, applied]
              rw [ih dictionary]
              apply forall_congr'
              intro key
              simp [at_ rfl key]

theorem estimatedData_spec (serverData estimatedData : NSDictionary Value)
    (sets : List (PFOperationSet Value))
    (estimated : estimatedDataFromServerData serverData sets = .ok estimatedData)
    (key : NSString) :
    replayAt key sets (serverData.lookup key) = .ok (estimatedData.lookup key) := by
  induction sets generalizing serverData with
  | nil =>
      cases estimated
      rfl
  | cons operationSet rest ih =>
      cases applied : applyOperationSet operationSet serverData with
      | mk dictionary raised =>
          cases raised with
          | some raised => simp [estimatedDataFromServerData, applied] at estimated
          | none =>
              simp only [estimatedDataFromServerData, applied] at estimated
              have at_ := writeAll_spec applyToValue operationSet serverData
              rw [← applyOperationSet, applied] at at_
              exact (replayAt_cons_ok_iff key operationSet rest _ _).mpr
                ⟨_, at_ rfl key, ih dictionary estimated⟩

end CollectionViewWorkshop.ParseObject
