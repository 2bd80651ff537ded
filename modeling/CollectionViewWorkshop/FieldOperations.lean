import CollectionViewWorkshop.KeyedLists
import CollectionViewWorkshop.ParseValues

/-!
`PFFieldOperation` and its subclasses: what an operation makes of a field, and
the one operation that stands for those made in turn (`mergeWithPrevious:`). What
the operations ask of the values is the class `FieldValue`; an object keeps its
`objectId` while its operations are merged. Relation operations are in a module
of their own.
-/

namespace CollectionViewWorkshop.FieldOperations

open KeyedLists Numbers ParseValues

inductive Raised where
  | invalidArgument (reason : String)
  | internalInconsistency (reason : String)
  deriving DecidableEq

/-- `objectId` answers for a `PFObject` that has one, and values of one `essence` are
`isEqual:`. `allObjects` is what a set made of an array hands back, one member of
each essence, in an order that is not specified. -/
class FieldValue (Value : Type) where
  asNumber : Value → Option NSNumber
  number : NSNumber → Value
  asArray : Value → Option (List Value)
  array : List Value → Value
  objectId : Value → Option NSString
  essence : Value → Value
  allObjects : List Value → List Value
  asNumber_number : ∀ amount, asNumber (number amount) = some amount
  asArray_array : ∀ objects, asArray (array objects) = some objects
  objectId_essence : ∀ value, objectId (essence value) = objectId value
  distinct_allObjects : ∀ objects, DistinctKeys essence (allObjects objects)
  allObjects_subset : ∀ objects, allObjects objects ⊆ objects
  covers_allObjects : ∀ objects, ∀ object ∈ objects,
    essence object ∈ (allObjects objects).map essence

attribute [simp] FieldValue.asNumber_number FieldValue.asArray_array

instance : FieldValue ParseValue where
  asNumber
    | .number value => some value
    | _ => none
  number := .number
  asArray
    | .array elements => some elements
    | _ => none
  array := .array
  objectId
    | .object reference => reference.objectId
    | _ => none
  essence := ParseValue.essence
  allObjects := fun objects => enterAll ParseValue.essence (fun _ => false) objects []
  asNumber_number := fun _ => rfl
  asArray_array := fun _ => rfl
  objectId_essence := fun value => by cases value <;> simp [ParseValue.essence]
  distinct_allObjects := fun objects => distinct_enterAll _ objects [] List.nodup_nil
  allObjects_subset := fun objects => enterAll_subset objects []
  covers_allObjects := fun objects object member =>
    (mem_keys_enterAll _ objects [] _).mpr (Or.inl (List.mem_map_of_mem member))

open FieldValue

inductive PFFieldOperation (Value : Type) where
  | set (value : Value)
  | delete
  | increment (amount : NSNumber)
  | add (objects : List Value)
  | addUnique (objects : List Value)
  | remove (objects : List Value)

variable {Value : Type} [FieldValue Value]

def addUniqueWithObjects (objects : List Value) : PFFieldOperation Value :=
  .addUnique (allObjects objects)

def invalidAfterPrevious : Raised :=
  .internalInconsistency "Operation is invalid after previous operation."

def nonNumber : Raised := .invalidArgument "You cannot increment a non-number."

def nonArray : Raised := .internalInconsistency "You can't add an item to a non-array."

theorem number_injective (first second : NSNumber) :
    (number first : Value) = number second ↔ first = second :=
  ⟨fun same => by simpa using congrArg asNumber same, congrArg number⟩

theorem array_injective (first second : List Value) :
    (array first : Value) = array second ↔ first = second :=
  ⟨fun same => by simpa using congrArg asArray same, congrArg array⟩

def removeIdentified (newValue : List Value) (objectToRemove : Value) : List Value :=
  match objectId objectToRemove with
  | some identifier => newValue.filter fun object => objectId object ≠ some identifier
  | none => newValue

def Removes (objects : List Value) (object : Value) : Prop :=
  (∃ removed ∈ objects, essence removed = essence object) ∨
    ∃ removed ∈ objects, (objectId removed).isSome ∧ objectId object = objectId removed

theorem removeIdentified_eq (newValue : List Value) (objectToRemove : Value) :
    removeIdentified newValue objectToRemove =
      newValue.filter fun object =>
        ¬ ((objectId objectToRemove).isSome ∧ objectId object = objectId objectToRemove) := by
  cases identified : objectId objectToRemove <;> simp [removeIdentified, identified]

theorem foldl_removeIdentified (objects newValue : List Value) :
    objects.foldl removeIdentified newValue =
      newValue.filter fun object =>
        ¬ ∃ removed ∈ objects, (objectId removed).isSome ∧ objectId object = objectId removed := by
  induction objects generalizing newValue with
  | nil => simp
  | cons objectToRemove rest ih =>
      rw [List.foldl_cons, ih, removeIdentified_eq, List.filter_filter]
      apply List.filter_congr
      intro object _
      rw [Bool.eq_iff_iff]
      simp only [Bool.and_eq_true, decide_eq_true_eq, List.exists_mem_cons_iff, not_or]
      exact and_comm

theorem removes_append_iff (first second : List Value) (object : Value) :
    Removes (first ++ second) object ↔ Removes first object ∨ Removes second object := by
  simp only [Removes, List.mem_append, or_and_right, exists_or]
  exact or_or_or_comm

def applyIncrement (amount : NSNumber) : Option Value → Except Raised (Option Value)
  | none => .ok (some (number amount))
  | some oldValue =>
      match asNumber oldValue with
      | some old => .ok (some (number (addNumber amount old)))
      | none => .error nonNumber

/-- An array operation finds nothing, an array or something else. -/
def applyToArray (objects : List Value) (combine : List Value → List Value) :
    Option Value → Except Raised (Option Value)
  | none => .ok (some (array objects))
  | some oldValue =>
      match asArray oldValue with
      | some old => .ok (some (array (combine old)))
      | none => .error invalidAfterPrevious

theorem applyToArray_ok (objects : List Value) (combine : List Value → List Value)
    (base middle : Option Value) (applied : applyToArray objects combine base = .ok middle) :
    (base = none ∧ middle = some (array objects)) ∨
      ∃ value old, base = some value ∧ asArray value = some old ∧
        middle = some (array (combine old)) := by
  cases base with
  | none => exact Or.inl ⟨rfl, (Except.ok.inj applied).symm⟩
  | some value =>
      cases found : asArray value with
      | none => simp [applyToArray, found] at applied
      | some old =>
          simp only [applyToArray, found] at applied
          exact Or.inr ⟨value, old, rfl, found, (Except.ok.inj applied).symm⟩

theorem applyToArray_array (objects old : List Value) (combine : List Value → List Value) :
    applyToArray objects combine (some (array old)) = .ok (some (array (combine old))) := by
  simp [applyToArray]

/-- What tells an element from the others: its `objectId`, or else what it is equal to. -/
def identityKey (object : Value) : NSString ⊕ Value :=
  match objectId object with
  | some identifier => .inl identifier
  | none => .inr (essence object)

theorem identityKey_identified_iff (identifier : NSString) (object : Value) :
    identityKey object = .inl identifier ↔ objectId object = some identifier := by
  cases identified : objectId object <;> simp [identityKey, identified]

theorem identityKey_new (objectToAdd : Value) (new : objectId objectToAdd = none) :
    identityKey objectToAdd = .inr (essence objectToAdd) := by
  simp [identityKey, new]

theorem identityKey_equal_iff (objectToAdd object : Value) (new : objectId objectToAdd = none) :
    identityKey object = identityKey objectToAdd ↔ essence object = essence objectToAdd := by
  rw [identityKey_new objectToAdd new]
  cases identified : objectId object with
  | none => simp [identityKey, identified]
  | some identifier =>
      simp only [identityKey, identified, reduceCtorEq, false_iff]
      intro same
      rw [← objectId_essence, same, objectId_essence, new] at identified
      cases identified

theorem identityKey_of_equal (first second : Value) (same : essence first = essence second) :
    identityKey first = identityKey second := by
  have identified : objectId first = objectId second := by
    rw [← objectId_essence first, same, objectId_essence]
  simp only [identityKey, identified, same]

variable [DecidableEq Value]

def containsObject (list : List Value) (object : Value) : Bool :=
  decide (∃ other ∈ list, essence other = essence object)

/-- An object that is there already, by `objectId`, gives way to the newer one. -/
def addUniqueObject (newValue : List Value) (objectToAdd : Value) : List Value :=
  match objectId objectToAdd with
  | some identifier =>
      match newValue.findIdx? fun object => objectId object = some identifier with
      | none => newValue ++ [objectToAdd]
      | some index => newValue.set index objectToAdd
  | none => if containsObject newValue objectToAdd then newValue else newValue ++ [objectToAdd]

def addUniqueObjects (objects oldValue : List Value) : List Value :=
  objects.foldl addUniqueObject oldValue

def removeObjects (objects oldValue : List Value) : List Value :=
  let newValue := oldValue.filter fun object => !containsObject objects object
  let objectsToBeRemoved := objects.filter fun object => !containsObject newValue object
  objectsToBeRemoved.foldl removeIdentified newValue

instance (objects : List Value) (object : Value) : Decidable (Removes objects object) :=
  inferInstanceAs (Decidable (_ ∨ _))

theorem removeObjects_eq (objects oldValue : List Value) :
    removeObjects objects oldValue =
      oldValue.filter fun object => ¬ Removes objects object := by
  have all : objects.filter (fun object => !containsObject
      (oldValue.filter fun object => !containsObject objects object) object) = objects := by
    rw [List.filter_eq_self]
    intro object member
    rw [Bool.not_eq_true', containsObject, decide_eq_false_iff_not]
    rintro ⟨other, inside, same⟩
    have kept := (List.mem_filter.mp inside).2
    rw [Bool.not_eq_true', containsObject, decide_eq_false_iff_not] at kept
    exact kept ⟨object, member, same.symm⟩
  simp only [removeObjects, all, foldl_removeIdentified, List.filter_filter]
  apply List.filter_congr
  intro object _
  rw [Bool.eq_iff_iff]
  simp only [Bool.and_eq_true, decide_eq_true_eq, Bool.not_eq_true', containsObject,
    decide_eq_false_iff_not, Removes, not_or]
  exact and_comm

theorem removeObjects_append (first second oldValue : List Value) :
    removeObjects second (removeObjects first oldValue) =
      removeObjects (first ++ second) oldValue := by
  simp only [removeObjects_eq, List.filter_filter]
  apply List.filter_congr
  intro object _
  rw [Bool.eq_iff_iff]
  simp only [Bool.and_eq_true, decide_eq_true_eq, removes_append_iff, not_or]
  exact and_comm

theorem removeObjects_grown_iff (objects oldValue : List Value) :
    oldValue ++ objects = removeObjects objects oldValue ↔ objects = [] := by
  constructor
  · intro same
    have shorter : (removeObjects objects oldValue).length ≤ oldValue.length := by
      rw [removeObjects_eq]
      exact List.length_filter_le _ oldValue
    rw [← same, List.length_append] at shorter
    exact List.length_eq_zero_iff.mp (by omega)
  · rintro rfl
    simp [removeObjects_eq, Removes]

-- `remove` hands its own objects over where there is nothing to remove them from
def applyToValue : PFFieldOperation Value → Option Value → Except Raised (Option Value)
  | .set value => fun _ => .ok (some value)
  | .delete => fun _ => .ok none
  | .increment amount => applyIncrement amount
  | .add objects => applyToArray objects fun oldValue => oldValue ++ objects
  | .addUnique objects => applyToArray objects (addUniqueObjects objects)
  | .remove objects => applyToArray objects (removeObjects objects)

def mergeIncrement (amount : NSNumber) :
    PFFieldOperation Value → Except Raised (PFFieldOperation Value)
  | .delete => .ok (.set (number amount))
  | .set value =>
      match asNumber value with
      | some old => .ok (.set (number (addNumber amount old)))
      | none => .error nonNumber
  | .increment previous => .ok (.increment (addNumber amount previous))
  | _ => .error invalidAfterPrevious

def mergeIntoSet (combine : List Value → List Value) (value : Value) :
    Except Raised (PFFieldOperation Value) :=
  match asArray value with
  | some old => .ok (.set (array (combine old)))
  | none => .error nonArray

def mergeAdd (objects : List Value) :
    PFFieldOperation Value → Except Raised (PFFieldOperation Value)
  | .delete => .ok (.set (array objects))
  | .set value => mergeIntoSet (fun oldValue => oldValue ++ objects) value
  | .add previous => .ok (.add (previous ++ objects))
  | _ => .error invalidAfterPrevious

def mergeAddUnique (objects : List Value) :
    PFFieldOperation Value → Except Raised (PFFieldOperation Value)
  | .delete => .ok (.set (array objects))
  | .set value => mergeIntoSet (addUniqueObjects objects) value
  | .addUnique previous => .ok (addUniqueWithObjects (addUniqueObjects objects previous))
  | _ => .error invalidAfterPrevious

def mergeRemove (objects : List Value) :
    PFFieldOperation Value → Except Raised (PFFieldOperation Value)
  | .delete => .error (.internalInconsistency "You can't remove items from a deleted array.")
  | .set value => mergeIntoSet (removeObjects objects) value
  | .remove previous => .ok (.remove (previous ++ objects))
  | _ => .error invalidAfterPrevious

def mergeAfter : PFFieldOperation Value → PFFieldOperation Value →
    Except Raised (PFFieldOperation Value)
  | .set value => fun _ => .ok (.set value)
  | .delete => fun _ => .ok .delete
  | .increment amount => mergeIncrement amount
  | .add objects => mergeAdd objects
  | .addUnique objects => mergeAddUnique objects
  | .remove objects => mergeRemove objects

def mergeWithPrevious (operation : PFFieldOperation Value) :
    Option (PFFieldOperation Value) → Except Raised (PFFieldOperation Value)
  | none => .ok operation
  | some previous => mergeAfter operation previous

/-! When two operations merge, and when the one does what the two did. -/

/-- The pairs that merge. -/
def Follows : PFFieldOperation Value → PFFieldOperation Value → Prop
  | .set _, _ => True
  | .delete, _ => True
  | .increment _, .delete => True
  | .increment _, .set value => (asNumber value).isSome
  | .increment _, .increment _ => True
  | .add _, .delete => True
  | .add _, .set value => (asArray value).isSome
  | .add _, .add _ => True
  | .addUnique _, .delete => True
  | .addUnique _, .set value => (asArray value).isSome
  | .addUnique _, .addUnique _ => True
  | .remove _, .set value => (asArray value).isSome
  | .remove _, .remove _ => True
  | _, _ => False

/-- What three pairs need besides, over the value under both. -/
def Regroups : PFFieldOperation Value → PFFieldOperation Value → Option Value → Prop
  | .increment later, .increment earlier, base =>
      ∀ old, base.bind asNumber = some old →
        addNumber (addNumber later earlier) old = addNumber later (addNumber earlier old)
  | .addUnique later, .addUnique earlier, base =>
      let united := addUniqueObjects later earlier
      (base = none → allObjects united = united) ∧
        ∀ old, base.bind asArray = some old →
          addUniqueObjects (allObjects united) old =
            addUniqueObjects later (addUniqueObjects earlier old)
  | .remove later, .remove _, base => base = none → later = []
  | _, _, _ => True

theorem mergeAfter_ok_iff (operation previous : PFFieldOperation Value) :
    (∃ merged, mergeAfter operation previous = .ok merged) ↔ Follows operation previous := by
  have intoSet : ∀ (combine : List Value → List Value) (value : Value),
      (∃ merged, mergeIntoSet combine value = .ok merged) ↔ (asArray value).isSome := by
    intro combine value
    cases found : asArray value <;> simp [mergeIntoSet, found]
  cases operation with
  | set value => simp [mergeAfter, Follows]
  | delete => simp [mergeAfter, Follows]
  | increment amount =>
      cases previous with
      | set value => cases found : asNumber value <;> simp [mergeAfter, mergeIncrement, Follows, found]
      | _ => simp [mergeAfter, mergeIncrement, Follows]
  | add objects => cases previous <;> simp [mergeAfter, mergeAdd, Follows, intoSet]
  | addUnique objects => cases previous <;> simp [mergeAfter, mergeAddUnique, Follows, intoSet]
  | remove objects => cases previous <;> simp [mergeAfter, mergeRemove, Follows, intoSet]

theorem apply_mergeIntoSet (objects : List Value) (combine : List Value → List Value)
    (value : Value) (merged : PFFieldOperation Value) (base : Option Value)
    (merges : mergeIntoSet combine value = .ok merged) :
    applyToValue merged base = applyToArray objects combine (some value) := by
  cases found : asArray value with
  | none => simp [mergeIntoSet, found] at merges
  | some old =>
      simp only [mergeIntoSet, found] at merges
      cases merges
      simp [applyToValue, applyToArray, found]

theorem merged_increments_iff (later earlier : NSNumber) (base middle : Option Value)
    (applied : applyIncrement earlier base = .ok middle) :
    applyIncrement (addNumber later earlier) base = applyIncrement later middle ↔
      Regroups (.increment later) (.increment earlier) base := by
  cases base with
  | none =>
      cases applied
      simp [applyIncrement, Regroups]
  | some value =>
      cases found : asNumber value with
      | none => simp [applyIncrement, found] at applied
      | some old =>
          simp only [applyIncrement, found] at applied
          cases applied
          simp [applyIncrement, Regroups, found, number_injective]

theorem merged_adds (later earlier : List Value) (base middle : Option Value)
    (applied : applyToValue (.add earlier) base = .ok middle) :
    applyToValue (.add (earlier ++ later)) base = applyToValue (.add later) middle := by
  rcases applyToArray_ok _ _ base middle applied with ⟨rfl, rfl⟩ | ⟨value, old, rfl, found, rfl⟩
  · simp [applyToValue, applyToArray]
  · simp [applyToValue, applyToArray, found]

theorem merged_uniques_iff (later earlier : List Value) (base middle : Option Value)
    (applied : applyToValue (.addUnique earlier) base = .ok middle) :
    applyToValue (addUniqueWithObjects (addUniqueObjects later earlier)) base =
        applyToValue (.addUnique later) middle ↔
      Regroups (.addUnique later) (.addUnique earlier) base := by
  rcases applyToArray_ok _ _ base middle applied with ⟨rfl, rfl⟩ | ⟨value, old, rfl, found, rfl⟩
  · simp [applyToValue, addUniqueWithObjects, applyToArray, Regroups, array_injective]
  · simp [applyToValue, addUniqueWithObjects, applyToArray, Regroups, array_injective, found]

theorem merged_removes_iff (later earlier : List Value) (base middle : Option Value)
    (applied : applyToValue (.remove earlier) base = .ok middle) :
    applyToValue (.remove (earlier ++ later)) base = applyToValue (.remove later) middle ↔
      Regroups (.remove later) (.remove earlier) base := by
  rcases applyToArray_ok _ _ base middle applied with ⟨rfl, rfl⟩ | ⟨value, old, rfl, found, rfl⟩
  · -- the first removal left its own objects here, and the second takes some out again
    simp [applyToValue, applyToArray, Regroups, array_injective, removeObjects_grown_iff]
  · simp [applyToValue, applyToArray, Regroups, found, removeObjects_append]

/-- Where two operations merge, the one they become does what the two do in turn
exactly under `Regroups`. -/
theorem apply_merged_iff (operation previous merged : PFFieldOperation Value)
    (base middle : Option Value) (merges : mergeAfter operation previous = .ok merged)
    (applied : applyToValue previous base = .ok middle) :
    applyToValue merged base = applyToValue operation middle ↔
      Regroups operation previous base := by
  cases operation with
  | set value =>
      cases merges
      simp [applyToValue, Regroups]
  | delete =>
      cases merges
      simp [applyToValue, Regroups]
  | increment amount =>
      cases previous with
      | set value =>
          cases applied
          cases found : asNumber value with
          | none => simp [mergeAfter, mergeIncrement, found] at merges
          | some old =>
              simp only [mergeAfter, mergeIncrement, found] at merges
              cases merges
              simp [applyToValue, applyIncrement, found, Regroups]
      | delete =>
          cases merges
          cases applied
          simp [applyToValue, applyIncrement, Regroups]
      | increment earlier =>
          cases merges
          exact merged_increments_iff amount earlier base middle applied
      | _ => simp [mergeAfter, mergeIncrement] at merges
  | add objects =>
      cases previous with
      | set value =>
          cases applied
          simp only [Regroups, iff_true]
          exact apply_mergeIntoSet objects _ value merged base merges
      | delete =>
          cases merges
          cases applied
          simp [applyToValue, applyToArray, Regroups]
      | add earlier =>
          cases merges
          simp [merged_adds objects earlier base middle applied, Regroups]
      | _ => simp [mergeAfter, mergeAdd] at merges
  | addUnique objects =>
      cases previous with
      | set value =>
          cases applied
          simp only [Regroups, iff_true]
          exact apply_mergeIntoSet objects _ value merged base merges
      | delete =>
          cases merges
          cases applied
          simp [applyToValue, applyToArray, Regroups]
      | addUnique earlier =>
          cases merges
          exact merged_uniques_iff objects earlier base middle applied
      | _ => simp [mergeAfter, mergeAddUnique] at merges
  | remove objects =>
      cases previous with
      | set value =>
          cases applied
          simp only [Regroups, iff_true]
          exact apply_mergeIntoSet objects _ value merged base merges
      | remove earlier =>
          cases merges
          exact merged_removes_iff objects earlier base middle applied
      | _ => simp [mergeAfter, mergeRemove] at merges

/-! Adding to an array as to a set, whose order is not specified. -/

theorem addUniqueObject_eq_enter (newValue : List Value) (objectToAdd : Value) :
    addUniqueObject newValue objectToAdd =
      enter identityKey Sum.isLeft newValue objectToAdd := by
  cases identified : objectId objectToAdd with
  | some identifier =>
      have key : identityKey objectToAdd = .inl identifier :=
        (identityKey_identified_iff identifier objectToAdd).mpr identified
      have same : (newValue.findIdx? fun other => identityKey other = identityKey objectToAdd) =
          newValue.findIdx? fun object => objectId object = some identifier := by
        simp only [key, identityKey_identified_iff]
      cases found : newValue.findIdx? fun object => objectId object = some identifier with
      | none => simp only [addUniqueObject, identified, enter, same, found]
      | some index =>
          simp only [addUniqueObject, identified, enter, same, found]
          rw [key]
          rfl
  | none =>
      have listed : containsObject newValue objectToAdd = true ↔
          identityKey objectToAdd ∈ newValue.map identityKey := by
        simp only [containsObject, decide_eq_true_eq, List.mem_map,
          identityKey_equal_iff objectToAdd _ identified]
      by_cases old : identityKey objectToAdd ∈ newValue.map identityKey
      · obtain ⟨index, other, -, -, entered⟩ :=
          enter_old Sum.isLeft newValue objectToAdd old
        simp [addUniqueObject, identified, listed.mpr old, entered,
          identityKey_new objectToAdd identified]
      · have absent := mt listed.mp old
        simp [addUniqueObject, identified, absent,
          enter_new Sum.isLeft newValue objectToAdd old]

theorem addUniqueObjects_eq_enterAll (objects oldValue : List Value) :
    addUniqueObjects objects oldValue = enterAll identityKey Sum.isLeft objects oldValue := by
  have step : (addUniqueObject : List Value → Value → List Value) =
      enter identityKey Sum.isLeft := by
    funext newValue objectToAdd
    exact addUniqueObject_eq_enter newValue objectToAdd
  rw [addUniqueObjects, enterAll, step]

omit [DecidableEq Value] in
theorem allObjects_perm (objects : List Value) (distinct : DistinctKeys identityKey objects) :
    (allObjects objects).Perm objects := by
  apply (List.perm_ext_iff_of_nodup (distinct_allObjects objects).nodup distinct.nodup).mpr
  intro object
  refine ⟨fun member => allObjects_subset objects member, fun member => ?_⟩
  obtain ⟨kept, inside, same⟩ := List.mem_map.mp (covers_allObjects objects object member)
  have isObject := distinct.same kept object (allObjects_subset objects inside) member
    (identityKey_of_equal kept object same)
  exact isObject ▸ inside

theorem applyUnique_ok (objects : List Value) (base value : Option Value)
    (applied : applyToValue (.addUnique objects) base = .ok value) :
    (base = none ∧ value = some (array objects)) ∨
      ∃ old, base.bind asArray = some old ∧
        value = some (array (enterAll identityKey Sum.isLeft objects old)) := by
  rcases applyToArray_ok _ _ base value applied with ⟨rfl, rfl⟩ | ⟨found, old, rfl, isOld, rfl⟩
  · exact Or.inl ⟨rfl, rfl⟩
  · exact Or.inr ⟨old, isOld, by rw [addUniqueObjects_eq_enterAll]⟩

/-! All the changes made to a field and the one operation that stands for them. -/

/-- The same, or two arrays of the same elements. -/
def SameUpToOrder (first second : Option Value) : Prop :=
  first = second ∨
    ∃ once twice, first = some (array once) ∧ second = some (array twice) ∧ once.Perm twice

def mergeAll (first : PFFieldOperation Value) (later : List (PFFieldOperation Value)) :
    Except Raised (PFFieldOperation Value) :=
  later.foldlM (fun previous operation => mergeWithPrevious operation (some previous)) first

def applyAll (operations : List (PFFieldOperation Value)) (base : Option Value) :
    Except Raised (Option Value) :=
  operations.foldlM (fun value operation => applyToValue operation value) base

/-- An increment has a signed type of so many bits, and an AddUnique names no thing twice. -/
def Regular (bits : ℕ) : PFFieldOperation Value → Prop
  | .increment amount => amount.objCType.wholeBits = some bits
  | .addUnique objects => DistinctKeys identityKey objects
  | _ => True

/-- A field that is first removed from is there, and one that is first added to as to a set
holds no thing twice. -/
def Prepared (first : PFFieldOperation Value) (base : Option Value) : Prop :=
  match first with
  | .remove _ => base ≠ none
  | .addUnique _ => ∀ old, base.bind asArray = some old → DistinctKeys identityKey old
  | _ => True

/-- The operation so far does what the changes so far did, up to the order an AddUnique
leaves open, and is an AddUnique or a Remove only if the first change was one. -/
def Stands (bits : ℕ) (base : Option Value) (merged : PFFieldOperation Value)
    (value : Option Value) : Prop :=
  Regular bits merged ∧ Prepared merged base ∧
    match merged with
    | .addUnique _ => ∃ once twice, applyToValue merged base = .ok (some (array once)) ∧
        value = some (array twice) ∧ twice.Perm once ∧ DistinctKeys identityKey once
    | _ => applyToValue merged base = .ok value

theorem Stands.same {bits : ℕ} {base value : Option Value} {merged : PFFieldOperation Value}
    (stands : Stands bits base merged value) :
    ∃ result, applyToValue merged base = .ok result ∧ SameUpToOrder result value := by
  obtain ⟨-, -, does⟩ := stands
  cases merged with
  | addUnique objects =>
      obtain ⟨once, twice, applied, rfl, reordered, -⟩ := does
      exact ⟨_, applied, Or.inr ⟨once, twice, rfl, rfl, reordered.symm⟩⟩
  | _ => exact ⟨value, does, Or.inl rfl⟩

theorem stands_first (bits : ℕ) (base value : Option Value) (first : PFFieldOperation Value)
    (regular : Regular bits first) (prepared : Prepared first base)
    (applied : applyToValue first base = .ok value) : Stands bits base first value := by
  refine ⟨regular, prepared, ?_⟩
  cases first with
  | addUnique objects =>
      rcases applyUnique_ok objects base value applied with ⟨rfl, rfl⟩ | ⟨old, isOld, rfl⟩
      · exact ⟨objects, objects, applied, rfl, List.Perm.refl _, regular⟩
      · exact ⟨_, _, applied, rfl, List.Perm.refl _, distinct_enterAll Sum.isLeft objects old
          (prepared old isOld)⟩
  | _ => exact applied

/-- One more AddUnique over the array that the ones before left. -/
theorem stands_unique (bits : ℕ) (base value next : Option Value) (later earlier : List Value)
    (stands : Stands bits base (.addUnique earlier) value)
    (regular : DistinctKeys identityKey later)
    (applied : applyToValue (.addUnique later) value = .ok next) :
    Stands bits base (addUniqueWithObjects (addUniqueObjects later earlier)) next := by
  obtain ⟨distinct, prepared, once, twice, does, rfl, reordered, distinctOnce⟩ := stands
  rw [applyToValue, applyToArray_array, addUniqueObjects_eq_enterAll] at applied
  cases applied
  rw [addUniqueObjects_eq_enterAll]
  have distinctUnion : DistinctKeys identityKey
      (enterAll identityKey Sum.isLeft later earlier) := distinct_enterAll Sum.isLeft later earlier distinct
  have union := allObjects_perm _ distinctUnion
  have entered := enterAll_perm Sum.isLeft later once twice regular distinctOnce
    reordered
  refine ⟨distinctUnion.perm union, prepared, ?_⟩
  rcases applyUnique_ok earlier base _ does with ⟨rfl, same⟩ | ⟨old, isOld, same⟩
  · -- the field was not there: the operation leaves its own objects
    rw [Option.some.injEq, array_injective] at same
    subst same
    exact ⟨_, _, rfl, rfl, entered.trans union.symm, distinctUnion.perm union⟩
  · rw [Option.some.injEq, array_injective] at same
    subst same
    obtain ⟨found, rfl, isArray⟩ := Option.bind_eq_some_iff.mp isOld
    have together := enterAll_union_perm later earlier _ old regular distinct (prepared old isOld)
      union
    refine ⟨_, _, ?_, rfl, entered.trans together.symm, distinct_enterAll Sum.isLeft _ old
      (prepared old isOld)⟩
    simp [addUniqueWithObjects, applyToValue, applyToArray, isArray,
      addUniqueObjects_eq_enterAll]

omit [DecidableEq Value] in
theorem mergeIntoSet_ok (combine : List Value → List Value) (value : Value)
    (merged : PFFieldOperation Value) (made : mergeIntoSet combine value = .ok merged) :
    ∃ changed, merged = .set changed := by
  cases found : asArray value with
  | none => simp [mergeIntoSet, found] at made
  | some old =>
      simp only [mergeIntoSet, found] at made
      exact ⟨_, (Except.ok.inj made).symm⟩

theorem merged_exact (bits : ℕ) (operation previous merged : PFFieldOperation Value)
    (base : Option Value) (merges : mergeAfter operation previous = .ok merged)
    (regular : Regular bits operation) (earlier : Regular bits previous)
    (prepared : Prepared previous base) (other : ∀ objects, previous ≠ .addUnique objects) :
    Regroups operation previous base ∧ Regular bits merged ∧ Prepared merged base ∧
      ∀ objects, merged ≠ .addUnique objects := by
  cases operation with
  | set value =>
      cases merges
      simp [Regroups, Regular, Prepared]
  | delete =>
      cases merges
      simp [Regroups, Regular, Prepared]
  | increment amount =>
      cases previous with
      | set value =>
          cases found : asNumber value with
          | none => simp [mergeAfter, mergeIncrement, found] at merges
          | some old =>
              simp only [mergeAfter, mergeIncrement, found] at merges
              cases merges
              simp [Regroups, Regular, Prepared]
      | delete =>
          cases merges
          simp [Regroups, Regular, Prepared]
      | increment previous =>
          cases merges
          exact ⟨fun old _ => addNumber_regroups amount previous old bits regular earlier,
            addNumber_wholeBits amount previous bits regular, trivial, fun _ => nofun⟩
      | _ => simp [mergeAfter, mergeIncrement] at merges
  | add objects =>
      cases previous with
      | set value =>
          obtain ⟨changed, rfl⟩ := mergeIntoSet_ok _ value merged merges
          simp [Regroups, Regular, Prepared]
      | delete =>
          cases merges
          simp [Regroups, Regular, Prepared]
      | add earlier =>
          cases merges
          simp [Regroups, Regular, Prepared]
      | _ => simp [mergeAfter, mergeAdd] at merges
  | addUnique objects =>
      cases previous with
      | set value =>
          obtain ⟨changed, rfl⟩ := mergeIntoSet_ok _ value merged merges
          simp [Regroups, Regular, Prepared]
      | delete =>
          cases merges
          simp [Regroups, Regular, Prepared]
      | addUnique previous => exact absurd rfl (other previous)
      | _ => simp [mergeAfter, mergeAddUnique] at merges
  | remove objects =>
      cases previous with
      | set value =>
          obtain ⟨changed, rfl⟩ := mergeIntoSet_ok _ value merged merges
          simp [Regroups, Regular, Prepared]
      | remove earlier =>
          cases merges
          exact ⟨fun absent => absurd absent prepared, trivial, prepared, fun _ => nofun⟩
      | _ => simp [mergeAfter, mergeRemove] at merges

theorem stands_step (bits : ℕ) (base value next : Option Value)
    (operation previous merged : PFFieldOperation Value)
    (stands : Stands bits base previous value) (regular : Regular bits operation)
    (merges : mergeAfter operation previous = .ok merged)
    (applied : applyToValue operation value = .ok next) : Stands bits base merged next := by
  by_cases unique : ∃ earlier, previous = .addUnique earlier
  · obtain ⟨earlier, rfl⟩ := unique
    cases operation with
    | set value =>
        cases merges
        exact ⟨trivial, trivial, applied⟩
    | delete =>
        cases merges
        exact ⟨trivial, trivial, applied⟩
    | addUnique later =>
        cases merges
        exact stands_unique bits base value next later earlier stands regular applied
    | increment amount => simp [mergeAfter, mergeIncrement] at merges
    | add objects => simp [mergeAfter, mergeAdd] at merges
    | remove objects => simp [mergeAfter, mergeRemove] at merges
  · have other : ∀ objects, previous ≠ .addUnique objects := fun objects same =>
      unique ⟨objects, same⟩
    obtain ⟨regularPrevious, prepared, does⟩ := stands
    have does : applyToValue previous base = .ok value := by
      cases previous with
      | addUnique earlier => exact absurd rfl (other earlier)
      | _ => exact does
    obtain ⟨regroups, regularMerged, preparedMerged, otherMerged⟩ :=
      merged_exact bits operation previous merged base merges regular regularPrevious prepared other
    have same := (apply_merged_iff operation previous merged base value merges does).mpr regroups
    rw [applied] at same
    refine ⟨regularMerged, preparedMerged, ?_⟩
    cases merged with
    | addUnique objects => exact absurd rfl (otherMerged objects)
    | _ => exact same

/-- Any number of increments merged into one does what they do in turn, also where a sum
wraps and where there is no number to increment. -/
theorem merged_increments_in_turn (bits : ℕ) (first : NSNumber) (later : List NSNumber)
    (wide : ∀ amount ∈ first :: later, amount.objCType.wholeBits = some bits)
    (base : Option Value) :
    ∃ merged, mergeAll (.increment first) (later.map .increment) = .ok merged ∧
      applyToValue merged base = applyAll ((first :: later).map .increment) base := by
  induction later generalizing first with
  | nil =>
      refine ⟨.increment first, rfl, ?_⟩
      rw [applyAll, List.map_singleton, List.foldlM_cons]
      cases applyToValue (.increment first) base <;> rfl
  | cons amount rest ih =>
      have firstWide := wide first List.mem_cons_self
      have nextWide := wide amount (by simp)
      obtain ⟨merged, merges, applies⟩ := ih (addNumber amount first) (by
        intro other inside
        rcases List.mem_cons.mp inside with rfl | after
        · exact addNumber_wholeBits amount first bits nextWide
        · exact wide other (by simp [after]))
      refine ⟨merged, merges, applies.trans ?_⟩
      have two : applyToValue (.increment (addNumber amount first)) base =
          applyToValue (.increment first) base >>= applyToValue (.increment amount) := by
        cases base with
        | none => simp [applyToValue, applyIncrement, bind, Except.bind]
        | some value =>
            cases found : asNumber value with
            | none => simp [applyToValue, applyIncrement, found, bind, Except.bind]
            | some old =>
                simp [applyToValue, applyIncrement, found, bind, Except.bind,
                  addNumber_regroups amount first old bits nextWide firstWide]
      simp only [applyAll, List.map_cons, List.foldlM_cons, two]
      cases applyToValue (.increment first) base <;> rfl

/-- Three increments of an `int` that is as large as it gets. -/
theorem merged_increments_in_turn_wrapping :
    let one : NSNumber := ⟨.int, 1⟩
    ∃ merged, mergeAll (.increment one) ([one, one].map .increment) = .ok merged ∧
      applyToValue merged (some (ParseValue.number ⟨.int, 2147483647⟩)) =
        applyAll ([one, one, one].map .increment) (some (ParseValue.number ⟨.int, 2147483647⟩)) :=
  merged_increments_in_turn 32 ⟨.int, 1⟩ [⟨.int, 1⟩, ⟨.int, 1⟩]
    (by decide) (some (ParseValue.number ⟨.int, 2147483647⟩))

end CollectionViewWorkshop.FieldOperations
