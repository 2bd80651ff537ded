import CollectionViewWorkshop.DeepSave
import CollectionViewWorkshop.Waves

/-!
The requests `_deepSaveAsyncChildrenOfObject:` makes for the objects and files it
collected: the files one by one, and then waves of batch requests, each once all
before it have succeeded. A lazy current user is saved by a request of its own.
The order a set hands its members out in is a parameter.
-/

namespace CollectionViewWorkshop.SaveWaves

open DeepSave FieldOperations GraphWalks ParseObject ParseValues Relation Waves

def aclWithoutCopying (object : PFObject ParseValue) : Option PFACL :=
  match object.objectForKey "ACL" with
  | some (.acl acl) => some acl
  | _ => none

/-- An object with its id, and with nothing but an access list under the key of one. -/
def WellFormed (reference : ObjectReference) (object : PFObject ParseValue) : Prop :=
  object.objectId = reference.objectId ∧
    object.objectForKey "ACL" = (aclWithoutCopying object).map .acl

instance (reference : ObjectReference) (object : PFObject ParseValue) :
    Decidable (WellFormed reference object) :=
  inferInstanceAs (Decidable (_ ∧ _))

structure Saving extends Memory where
  currentUserIsLazy : Bool
  isDataAvailableForKey : ObjectReference → NSString → Bool
  wellFormed : ∀ reference ∈ known, WellFormed reference (object reference)

variable (saving : Saving)

def relationToCycle : Raised :=
  .internalInconsistency "Unable to save a PFObject with a relation to a cycle."

mutual

def canBeSerializedAsValue (saved : List ObjectReference) : ParseValue → Bool
  | .object object => !(isNew saving.toMemory object && object ∉ saved)
  | .dictionary entries => canBeSerializedEntries saved entries
  | .array elements => canBeSerializedElements saved elements
  | _ => true

def canBeSerializedElements (saved : List ObjectReference) : List ParseValue → Bool
  | [] => true
  | element :: rest =>
      canBeSerializedAsValue saved element && canBeSerializedElements saved rest

def canBeSerializedEntries (saved : List ObjectReference) :
    List (NSString × ParseValue) → Bool
  | [] => true
  | (_, value) :: rest => canBeSerializedAsValue saved value && canBeSerializedEntries saved rest

end

def awaitsUser (object : ObjectReference) : Bool :=
  saving.isDataAvailableForKey object "ACL" &&
    (aclWithoutCopying (saving.object object)).any PFACL.hasUnresolvedUser

def canBeSerializedAfterSaving (saved : List ObjectReference) (object : ObjectReference) : Bool :=
  canBeSerializedEntries saving saved (dictionaryRepresentation (saving.object object)) &&
    !(awaitsUser saving object && !(saving.currentUser.any fun user => user ∈ saved))

/-- The loop of `arrayBySplittingArray:` from an index on. -/
def segmentsFrom {Element : Type} (components : ℕ) (array : List Element) : ℕ → ℕ →
    List (List Element)
  | 0, _ => []
  | fuel + 1, index =>
      if index < array.length then
        let length := min (array.length - index) components
        (array.drop index).take length :: segmentsFrom components array fuel (index + length)
      else []

def arrayBySplittingArray {Element : Type} (array : List Element) (components : ℕ) :
    List (List Element) :=
  if array.length ≤ components then [array] else segmentsFrom components array array.length 0

/-- How a set hands out its members. -/
structure SetOrder (Element : Type) where
  allObjects : Finset Element → List Element
  nodup : ∀ set, (allObjects set).Nodup
  members : ∀ set element, element ∈ allObjects set ↔ element ∈ set

/-- The object itself is not saved with its children. -/
def remainingChildren (order : SetOrder ObjectReference) (object : ObjectReference)
    (found : Found) : List ObjectReference :=
  order.allObjects (found.dirtyChildren.erase object)

def subcommandsLimit : ℕ := 50

/-- One link of the chain of success blocks; the batches of a wave are sent together. -/
inductive Request where
  | saveFile (file : PFFile)
  | saveLazyUser (user : ObjectReference)
  | saveBatches (batches : List (List ObjectReference))

def Request.objects : Request → List ObjectReference
  | .saveFile _ => []
  | .saveLazyUser user => [user]
  | .saveBatches batches => batches.flatten

def Request.files : Request → List PFFile
  | .saveFile file => [file]
  | _ => []

def lazyUserIn (current : List ObjectReference) : Option ObjectReference :=
  if saving.currentUserIsLazy then saving.currentUser.filter fun user => user ∈ current else none

def batchRequest : List ObjectReference → List Request
  | [] => []
  | current => [.saveBatches (arrayBySplittingArray current subcommandsLimit)]

def requestsOfWave (current : List ObjectReference) : List Request :=
  match lazyUserIn saving current with
  | some user => .saveLazyUser user :: batchRequest (current.filter fun object => object ≠ user)
  | none => batchRequest current

def deepSaveAsyncChildrenOfObject (order : SetOrder ObjectReference) (fileOrder : SetOrder PFFile)
    (object : ObjectReference) : Except Raised (List Request) :=
  match collectDirtyChildren saving.toMemory object with
  | .error raised => .error raised
  | .ok found =>
      match waves (canBeSerializedAfterSaving saving)
          (remainingChildren order object found) [] with
      | none => .error relationToCycle
      | some taken => .ok ((fileOrder.allObjects found.dirtyFiles).map .saveFile ++
          taken.flatMap (requestsOfWave saving))

/-- `continueAsyncWithSuccessBlock:`, link after link. -/
def sent (succeeds : Request → Bool) : List Request → List Request
  | [] => []
  | request :: rest => request :: if succeeds request then sent succeeds rest else []

def newPointers (object : ObjectReference) : List ObjectReference :=
  (objectLeaves none (saving.object object)).filterMap fun leaf =>
    match leaf with
    | .object pointer => if isNew saving.toMemory pointer then some pointer else none
    | .file _ => none

/-- What has to be saved before an object, if anything will do: the new objects it points
to and, for an access list with an unresolved user, the current user. -/
def needs (object : ObjectReference) : Option (List ObjectReference) :=
  if awaitsUser saving object then
    saving.currentUser.map fun user => user :: newPointers saving object
  else some (newPointers saving object)

variable {saving}

theorem mem_newPointers_iff (object pointer : ObjectReference) :
    pointer ∈ newPointers saving object ↔
      .object pointer ∈ objectLeaves none (saving.object object) ∧
        New saving.toMemory pointer := by
  simp only [newPointers, List.mem_filterMap]
  constructor
  · rintro ⟨leaf, member, found⟩
    cases leaf with
    | file file => cases found
    | object reference =>
        by_cases new : isNew saving.toMemory reference
        · simp only [new, if_true, Option.some.injEq] at found
          exact found ▸ ⟨member, new⟩
        · simp [new] at found
  · rintro ⟨member, new⟩
    exact ⟨.object pointer, member, by simp [new]⟩

/-! Without the current user there are fewer leaves. -/
mutual

theorem leaves_subset (currentUser : Option ObjectReference) : ∀ value : ParseValue,
    leaves none value ⊆ leaves currentUser value
  | .object _ => by simp [leaves]
  | .file _ => by simp [leaves]
  | .acl _ => by simp [leaves]
  | .array elements => by simpa [leaves] using elementLeaves_subset currentUser elements
  | .dictionary entries => by simpa [leaves] using entryLeaves_subset currentUser entries
  | .null => by simp [leaves]
  | .number _ => by simp [leaves]
  | .string _ => by simp [leaves]
  | .data _ => by simp [leaves]
  | .date _ => by simp [leaves]
  | .geoPoint _ => by simp [leaves]

theorem elementLeaves_subset (currentUser : Option ObjectReference) :
    ∀ elements : List ParseValue, elementLeaves none elements ⊆ elementLeaves currentUser elements
  | [] => by simp [elementLeaves]
  | element :: rest => by
      rw [elementLeaves, elementLeaves]
      exact List.append_subset.mpr
        ⟨List.subset_append_of_subset_left _ (leaves_subset currentUser element),
          List.subset_append_of_subset_right _ (elementLeaves_subset currentUser rest)⟩

theorem entryLeaves_subset (currentUser : Option ObjectReference) :
    ∀ entries : List (NSString × ParseValue),
      entryLeaves none entries ⊆ entryLeaves currentUser entries
  | [] => by simp [entryLeaves]
  | (_, value) :: rest => by
      rw [entryLeaves, entryLeaves]
      exact List.append_subset.mpr
        ⟨List.subset_append_of_subset_left _ (leaves_subset currentUser value),
          List.subset_append_of_subset_right _ (entryLeaves_subset currentUser rest)⟩

end

theorem entryLeaves_of_member (currentUser : Option ObjectReference)
    (entries : List (NSString × ParseValue)) (key : NSString) (value : ParseValue)
    (member : (key, value) ∈ entries) : leaves currentUser value ⊆ entryLeaves currentUser entries := by
  induction entries with
  | nil => cases member
  | cons entry rest ih =>
      rw [entryLeaves]
      rcases List.mem_cons.mp member with rfl | later
      · exact List.subset_append_left _ _
      · exact List.subset_append_of_subset_right _ (ih later)

theorem acl_is_shown (object : PFObject ParseValue) (acl : PFACL)
    (holds : aclWithoutCopying object = some acl) :
    ("ACL", .acl acl) ∈ dictionaryRepresentation object := by
  have found : object.estimatedData.lookup "ACL" = some (.acl acl) := by
    rw [aclWithoutCopying, PFObject.objectForKey] at holds
    split at holds
    · rename_i found
      cases holds
      exact found
    · cases holds
  exact List.mem_map.mpr ⟨⟨"ACL", .acl acl⟩, AList.mem_lookup_iff.mp found, rfl⟩

theorem awaited_is_mentioned (object user : ObjectReference) (awaits : awaitsUser saving object)
    (current : saving.currentUser = some user) : Mentions saving.toMemory object user := by
  obtain ⟨-, unresolved⟩ := Bool.and_eq_true_iff.mp awaits
  cases holds : aclWithoutCopying (saving.object object) with
  | none => simp [holds] at unresolved
  | some acl =>
      rw [holds, Option.any_some] at unresolved
      apply entryLeaves_of_member _ _ "ACL" (.acl acl) (acl_is_shown _ acl holds)
      simp [leaves, unresolved, current]

theorem needed_is_mentioned (object needed : ObjectReference)
    (wanted : Needs (needs saving) object needed) : Mentions saving.toMemory object needed := by
  obtain ⟨all, listed, member⟩ := wanted
  have pointers : ∀ pointer ∈ newPointers saving object,
      Mentions saving.toMemory object pointer := fun pointer member =>
    entryLeaves_subset _ _ ((mem_newPointers_iff object pointer).mp member).1
  rw [needs] at listed
  split at listed
  · rename_i awaits
    obtain ⟨user, current, rfl⟩ := Option.map_eq_some_iff.mp listed
    rcases List.mem_cons.mp member with rfl | pointed
    · exact awaited_is_mentioned object needed awaits current
    · exact pointers needed pointed
  · cases listed
    exact pointers needed member

theorem segmentsFrom_spec {Element : Type} (components : ℕ) (positive : 0 < components)
    (array : List Element) (fuel index : ℕ) (enough : array.length ≤ index + fuel) :
    (segmentsFrom components array fuel index).flatten = array.drop index ∧
      ∀ segment ∈ segmentsFrom components array fuel index,
        segment ≠ [] ∧ segment.length ≤ components := by
  induction fuel generalizing index with
  | zero =>
      rw [List.drop_eq_nil_of_le (by omega)]
      exact ⟨rfl, by simp [segmentsFrom]⟩
  | succ fuel ih =>
      rw [segmentsFrom]
      by_cases inside : index < array.length
      · rw [if_pos inside]
        obtain ⟨rest, each⟩ := ih (index + min (array.length - index) components) (by omega)
        constructor
        · rw [List.flatten_cons, rest, ← List.drop_drop, List.take_append_drop]
        · intro segment member
          rcases List.mem_cons.mp member with rfl | later
          · constructor
            · intro empty
              have := congrArg List.length empty
              simp only [List.length_take, List.length_drop, List.length_nil] at this
              omega
            · simp only [List.length_take, List.length_drop]
              omega
          · exact each segment later
      · rw [if_neg inside, List.drop_eq_nil_of_le (by omega)]
        exact ⟨rfl, by simp⟩

theorem arrayBySplittingArray_spec {Element : Type} (array : List Element) (some_ : array ≠ [])
    (components : ℕ) (positive : 0 < components) :
    (arrayBySplittingArray array components).flatten = array ∧
      ∀ segment ∈ arrayBySplittingArray array components,
        segment ≠ [] ∧ segment.length ≤ components := by
  rw [arrayBySplittingArray]
  by_cases short : array.length ≤ components
  · rw [if_pos short]
    exact ⟨by simp, by simp [some_, short]⟩
  · rw [if_neg short]
    exact segmentsFrom_spec components positive array array.length 0 (by omega)

def PointersSaved (saving : Saving) (saved : List ObjectReference) (all : List Leaf) : Prop :=
  ∀ pointer, .object pointer ∈ all → New saving.toMemory pointer → pointer ∈ saved

theorem pointersSaved_append (saved : List ObjectReference) (first second : List Leaf) :
    PointersSaved saving saved (first ++ second) ↔
      PointersSaved saving saved first ∧ PointersSaved saving saved second := by
  simp only [PointersSaved, List.mem_append, or_imp, forall_and]

mutual

theorem serializedAsValue_iff (saved : List ObjectReference) : ∀ value : ParseValue,
    canBeSerializedAsValue saving saved value = true ↔
      PointersSaved saving saved (leaves none value)
  | .object object => by
      simp [canBeSerializedAsValue, PointersSaved, leaves, or_iff_not_imp_left]
  | .array elements => by
      rw [canBeSerializedAsValue, leaves, serializedElements_iff saved elements]
  | .dictionary entries => by
      rw [canBeSerializedAsValue, leaves, serializedEntries_iff saved entries]
  | .acl acl => by simp [canBeSerializedAsValue, PointersSaved, leaves]
  | .file file => by simp [canBeSerializedAsValue, PointersSaved, leaves]
  | .null => by simp [canBeSerializedAsValue, PointersSaved, leaves]
  | .number value => by simp [canBeSerializedAsValue, PointersSaved, leaves]
  | .string text => by simp [canBeSerializedAsValue, PointersSaved, leaves]
  | .data bytes => by simp [canBeSerializedAsValue, PointersSaved, leaves]
  | .date date => by simp [canBeSerializedAsValue, PointersSaved, leaves]
  | .geoPoint point => by simp [canBeSerializedAsValue, PointersSaved, leaves]

theorem serializedElements_iff (saved : List ObjectReference) : ∀ elements : List ParseValue,
    canBeSerializedElements saving saved elements = true ↔
      PointersSaved saving saved (elementLeaves none elements)
  | [] => by simp [canBeSerializedElements, PointersSaved, elementLeaves]
  | element :: rest => by
      rw [canBeSerializedElements, elementLeaves, pointersSaved_append, Bool.and_eq_true,
        serializedAsValue_iff saved element, serializedElements_iff saved rest]

theorem serializedEntries_iff (saved : List ObjectReference) :
    ∀ entries : List (NSString × ParseValue),
      canBeSerializedEntries saving saved entries = true ↔
        PointersSaved saving saved (entryLeaves none entries)
  | [] => by simp [canBeSerializedEntries, PointersSaved, entryLeaves]
  | (_, value) :: rest => by
      rw [canBeSerializedEntries, entryLeaves, pointersSaved_append, Bool.and_eq_true,
        serializedAsValue_iff saved value, serializedEntries_iff saved rest]

end

variable (saving) in
theorem pointersSaved_iff (saved : List ObjectReference) (object : ObjectReference) :
    PointersSaved saving saved (objectLeaves none (saving.object object)) ↔
      ∀ pointer ∈ newPointers saving object, pointer ∈ saved := by
  simp only [PointersSaved, mem_newPointers_iff, and_imp]

theorem canBeSerialized_eq :
    canBeSerializedAfterSaving saving = readyAfter (needs saving) := by
  funext saved object
  rw [Bool.eq_iff_iff, canBeSerializedAfterSaving, Bool.and_eq_true, serializedEntries_iff]
  have pointers := pointersSaved_iff saving saved object
  rw [objectLeaves] at pointers
  rw [pointers, readyAfter, needs]
  cases awaits : awaitsUser saving object with
  | false => simp
  | true =>
      cases saving.currentUser with
      | none => simp
      | some user => simp [and_comm]

theorem mem_remaining_iff (order : SetOrder ObjectReference) (object : ObjectReference)
    (inside : object ∈ saving.known) (found : Found)
    (ok : collectDirtyChildren saving.toMemory object = .ok found) (other : ObjectReference) :
    other ∈ remainingChildren order object found ↔ other ≠ object ∧
      ReflTransGen (Mentions saving.toMemory) object other ∧
        dirty saving.toMemory other = true := by
  rw [remainingChildren, order.members, Finset.mem_erase, (collect_spec object inside found ok).1]

/-- Nothing will do for a child, it needs what is not saved before it, or it comes to
need itself. -/
def Unsavable (saving : Saving) (object child : ObjectReference) : Prop :=
  needs saving child = none ∨
    (∃ need, Needs (needs saving) child need ∧
      (need = object ∨ dirty saving.toMemory need = false)) ∨
    TransGen (Needs (needs saving)) child child

theorem remaining_stuck_iff (order : SetOrder ObjectReference) (object : ObjectReference)
    (inside : object ∈ saving.known) (found : Found)
    (ok : collectDirtyChildren saving.toMemory object = .ok found) :
    waves (canBeSerializedAfterSaving saving) (remainingChildren order object found) [] = none ↔
      ∃ child, (child ≠ object ∧ ReflTransGen (Mentions saving.toMemory) object child ∧
          dirty saving.toMemory child = true) ∧ Unsavable saving object child := by
  rw [canBeSerialized_eq, waves_blocked_iff]
  have members := mem_remaining_iff order object inside found ok
  have outside : ∀ child, (child ≠ object ∧ ReflTransGen (Mentions saving.toMemory) object child ∧
      dirty saving.toMemory child = true) → ∀ need, Needs (needs saving) child need →
        (need ∉ remainingChildren order object found ↔
          need = object ∨ dirty saving.toMemory need = false) := by
    rintro child ⟨-, reach, -⟩ need wanted
    have reached := reach.tail (needed_is_mentioned child need wanted)
    simp only [members need, reached, true_and, not_and_or, not_not, Bool.not_eq_true]
  constructor
  · rintro ⟨child, member, blocked⟩
    have isChild := (members child).mp member
    refine ⟨child, isChild, ?_⟩
    rcases blocked with nothing | ⟨need, wanted, missing⟩ | cycle
    · exact Or.inl nothing
    · exact Or.inr (Or.inl ⟨need, wanted, (outside child isChild need wanted).mp missing⟩)
    · exact Or.inr (Or.inr cycle)
  · rintro ⟨child, isChild, unsavable⟩
    refine ⟨child, (members child).mpr isChild, ?_⟩
    rcases unsavable with nothing | ⟨need, wanted, missing⟩ | cycle
    · exact Or.inl nothing
    · exact Or.inr (Or.inl ⟨need, wanted, (outside child isChild need wanted).mpr missing⟩)
    · exact Or.inr (Or.inr cycle)

/-- A deep save raises for a cycle of new objects, and else for a child that cannot be
saved before the object. -/
theorem deepSave_raises_iff (order : SetOrder ObjectReference) (fileOrder : SetOrder PFFile)
    (object : ObjectReference) (inside : object ∈ saving.known) (raised : Raised) :
    deepSaveAsyncChildrenOfObject saving order fileOrder object = .error raised ↔
      (raised = circularDependency ∧
        ∃ other, ReflTransGen (Mentions saving.toMemory) object other ∧
          OnCycle (Mentions saving.toMemory) (New saving.toMemory) other) ∨
        (raised = relationToCycle ∧
          (¬ ∃ other, ReflTransGen (Mentions saving.toMemory) object other ∧
            OnCycle (Mentions saving.toMemory) (New saving.toMemory) other) ∧
          ∃ child, (child ≠ object ∧ ReflTransGen (Mentions saving.toMemory) object child ∧
              dirty saving.toMemory child = true) ∧ Unsavable saving object child) := by
  have circular := collect_raises_iff object inside circularDependency
  rw [deepSaveAsyncChildrenOfObject]
  cases found : collectDirtyChildren saving.toMemory object with
  | error actual =>
      obtain ⟨rfl, cycle⟩ := (collect_raises_iff object inside actual).mp found
      simp only [Except.error.injEq, cycle, not_true_eq_false, false_and, and_false, or_false,
        and_true]
      exact eq_comm
  | ok collected =>
      have straight : ¬ ∃ other, ReflTransGen (Mentions saving.toMemory) object other ∧
          OnCycle (Mentions saving.toMemory) (New saving.toMemory) other := by
        intro cycle
        rw [found] at circular
        exact absurd (circular.mpr ⟨rfl, cycle⟩) (by simp)
      have stuck := remaining_stuck_iff order object inside collected found
      rw [← stuck]
      cases taken : waves (canBeSerializedAfterSaving saving)
          (remainingChildren order object collected) [] with
      | none =>
          simp only [taken, Except.error.injEq, straight, and_false, not_false_eq_true, false_or,
            and_true]
          exact eq_comm
      | some current => simp [taken, straight]

theorem lazyUserIn_eq_some (current : List ObjectReference) (user : ObjectReference)
    (found : lazyUserIn saving current = some user) :
    saving.currentUserIsLazy = true ∧ saving.currentUser = some user ∧ user ∈ current := by
  rw [lazyUserIn] at found
  split at found
  · rename_i isLazy
    obtain ⟨same, member⟩ := Option.filter_eq_some_iff.mp found
    exact ⟨isLazy, same, by simpa using member⟩
  · cases found

theorem lazyUserIn_eq_none (current : List ObjectReference) (user : ObjectReference)
    (found : lazyUserIn saving current = none) (isLazy : saving.currentUserIsLazy = true)
    (same : saving.currentUser = some user) : user ∉ current := by
  simpa [lazyUserIn, isLazy, same] using found

theorem perm_cons_others (current : List ObjectReference) (user : ObjectReference)
    (member : user ∈ current) (nodup : current.Nodup) :
    (user :: current.filter fun object => object ≠ user).Perm current := by
  have erased := (List.perm_cons_erase member).symm
  rw [nodup.erase_eq_filter] at erased
  simpa [bne, beq_eq_decide] using erased

theorem objects_batchRequest (current : List ObjectReference) :
    (batchRequest current).flatMap Request.objects = current := by
  cases current with
  | nil => rfl
  | cons first rest =>
      have split := arrayBySplittingArray_spec (first :: rest) (by simp) subcommandsLimit
        (by decide)
      rw [batchRequest, List.flatMap_singleton, Request.objects, split.1]
      simp

variable (saving) in
theorem objects_requestsOfWave (current : List ObjectReference) (nodup : current.Nodup) :
    ((requestsOfWave saving current).flatMap Request.objects).Perm current := by
  rw [requestsOfWave]
  cases found : lazyUserIn saving current with
  | none => exact List.Perm.of_eq (objects_batchRequest current)
  | some user =>
      obtain ⟨-, -, member⟩ := lazyUserIn_eq_some current user found
      rw [List.flatMap_cons, objects_batchRequest]
      exact perm_cons_others current user member nodup

theorem files_batchRequest (current : List ObjectReference) :
    (batchRequest current).flatMap Request.files = [] := by
  cases current <;> simp [batchRequest, Request.files]

theorem files_requestsOfWave (current : List ObjectReference) :
    (requestsOfWave saving current).flatMap Request.files = [] := by
  rw [requestsOfWave]
  cases lazyUserIn saving current with
  | none => exact files_batchRequest current
  | some user =>
      rw [List.flatMap_cons, files_batchRequest]
      rfl

/-- Within what a lazy current user and the limit leave to a request. -/
def Permitted (saving : Saving) : Request → Prop
  | .saveFile _ => True
  | .saveLazyUser user => saving.currentUserIsLazy = true ∧ saving.currentUser = some user
  | .saveBatches batches => ∀ batch ∈ batches, batch ≠ [] ∧ batch.length ≤ subcommandsLimit ∧
      (saving.currentUserIsLazy = true → ∀ user, saving.currentUser = some user → user ∉ batch)

variable (saving) in
theorem permitted_batchRequest (current : List ObjectReference)
    (userless : saving.currentUserIsLazy = true → ∀ user, saving.currentUser = some user →
      user ∉ current) :
    ∀ request ∈ batchRequest current, Permitted saving request := by
  cases current with
  | nil => simp [batchRequest]
  | cons first rest =>
      obtain ⟨whole, each⟩ := arrayBySplittingArray_spec (first :: rest) (by simp)
        subcommandsLimit (by decide)
      intro request planned
      cases List.mem_singleton.mp planned
      intro batch member
      refine ⟨(each batch member).1, (each batch member).2, fun isLazy user same inBatch => ?_⟩
      apply userless isLazy user same
      rw [← whole]
      exact List.mem_flatten.mpr ⟨batch, member, inBatch⟩

theorem permitted_requestsOfWave (current : List ObjectReference) :
    ∀ request ∈ requestsOfWave saving current, Permitted saving request := by
  rw [requestsOfWave]
  cases found : lazyUserIn saving current with
  | none =>
      exact permitted_batchRequest saving current fun isLazy user same =>
        lazyUserIn_eq_none current user found isLazy same
  | some user =>
      obtain ⟨isLazy, same, -⟩ := lazyUserIn_eq_some current user found
      have others := permitted_batchRequest saving
        (current.filter fun object => object ≠ user) fun _ other sameToo member => by
          rw [same, Option.some.injEq] at sameToo
          simp [sameToo] at member
      intro request member
      rcases List.mem_cons.mp member with rfl | planned
      · exact ⟨isLazy, same⟩
      · exact others request planned

/-- Each request saves objects that need nothing but what is saved before it. -/
def Ordered (saving : Saving) : List ObjectReference → List Request → Prop
  | _, [] => True
  | saved, request :: rest =>
      (∀ child ∈ request.objects, readyAfter (needs saving) saved child = true) ∧
        Ordered saving (saved ++ request.objects) rest

theorem ordered_append (saved : List ObjectReference) (first second : List Request) :
    Ordered saving saved (first ++ second) ↔ Ordered saving saved first ∧
      Ordered saving (saved ++ first.flatMap Request.objects) second := by
  induction first generalizing saved with
  | nil => simp [Ordered]
  | cons request rest ih => simp [Ordered, ih, and_assoc, List.append_assoc]

theorem ordered_ready (saved : List ObjectReference) (requests : List Request)
    (all : ∀ child ∈ requests.flatMap Request.objects,
      readyAfter (needs saving) saved child = true) : Ordered saving saved requests := by
  induction requests generalizing saved with
  | nil => trivial
  | cons request rest ih =>
      rw [List.flatMap_cons] at all
      refine ⟨fun child member => all child (List.mem_append_left _ member), ih _ ?_⟩
      intro child member
      exact readyAfter_monotone saved _ child (List.subset_append_left _ _)
        (all child (List.mem_append_right _ member))

theorem ordered_waves (finished saved : List ObjectReference) (taken : List (List ObjectReference))
    (inWaves : InWaves (readyAfter (needs saving)) finished taken) (nodup : taken.flatten.Nodup)
    (done : finished ⊆ saved) :
    Ordered saving saved (taken.flatMap (requestsOfWave saving)) := by
  induction taken generalizing finished saved with
  | nil => trivial
  | cons wave rest ih =>
      obtain ⟨-, ready, -, later⟩ := inWaves
      rw [List.flatten_cons, List.nodup_append] at nodup
      have all := objects_requestsOfWave saving wave nodup.1
      rw [List.flatMap_cons, ordered_append]
      constructor
      · apply ordered_ready
        intro child member
        exact readyAfter_monotone finished saved child done (ready child (all.subset member))
      · apply ih (finished ++ wave) _ later nodup.2.1
        exact List.append_subset.mpr ⟨List.subset_append_of_subset_left _ done,
          List.subset_append_of_subset_right _ all.symm.subset⟩

theorem ordered_split (requests before after : List Request) (request : Request)
    (ordered : Ordered saving [] requests) (split : requests = before ++ request :: after)
    (child : ObjectReference) (member : child ∈ request.objects) :
    needs saving child ≠ none ∧ ∀ need, Needs (needs saving) child need →
      need ∈ before.flatMap Request.objects := by
  rw [split, ordered_append] at ordered
  exact (ready_iff _ child).mp (by simpa using ordered.2.1 child member)

theorem sent_begins (succeeds : Request → Bool) (requests : List Request) :
    sent succeeds requests <+: requests := by
  induction requests with
  | nil => exact List.prefix_refl []
  | cons request rest ih =>
      rw [sent, List.prefix_cons_inj]
      split
      · exact ih
      · exact List.nil_prefix

theorem sent_all (succeeds : Request → Bool) (requests : List Request)
    (all : ∀ request ∈ requests, succeeds request = true) : sent succeeds requests = requests := by
  induction requests with
  | nil => rfl
  | cons request rest ih =>
      rw [sent, if_pos (all request (by simp)),
        ih fun other member => all other (List.mem_cons_of_mem request member)]

theorem sent_split (succeeds : Request → Bool) (requests before after : List Request)
    (request : Request) (split : sent succeeds requests = before ++ request :: after) :
    ∀ earlier ∈ before, succeeds earlier = true := by
  induction requests generalizing before with
  | nil => simp [sent] at split
  | cons first rest ih =>
      cases before with
      | nil => simp
      | cons earlier others =>
          rw [sent, List.cons_append, List.cons.injEq] at split
          obtain ⟨rfl, later⟩ := split
          by_cases succeeded : succeeds first = true
          · rw [if_pos succeeded] at later
            simpa [succeeded] using ih others later
          · simp [succeeded] at later

theorem objects_requests (taken : List (List ObjectReference)) (nodup : taken.flatten.Nodup) :
    ((taken.flatMap (requestsOfWave saving)).flatMap Request.objects).Perm taken.flatten := by
  induction taken with
  | nil => exact List.Perm.refl []
  | cons wave rest ih =>
      rw [List.flatten_cons, List.nodup_append] at nodup
      rw [List.flatMap_cons, List.flatMap_append, List.flatten_cons]
      exact (objects_requestsOfWave saving wave nodup.1).append (ih nodup.2.1)

theorem objects_files (files : List PFFile) :
    (files.map Request.saveFile).flatMap Request.objects = [] := by
  simp [List.flatMap_map, Request.objects]

theorem deepSave_plans (order : SetOrder ObjectReference) (fileOrder : SetOrder PFFile)
    (object : ObjectReference) (requests : List Request)
    (ok : deepSaveAsyncChildrenOfObject saving order fileOrder object = .ok requests) :
    ∃ found, collectDirtyChildren saving.toMemory object = .ok found ∧
      (requests.flatMap Request.objects).Perm (remainingChildren order object found) ∧
      requests.flatMap Request.files = fileOrder.allObjects found.dirtyFiles ∧
      (∀ request ∈ requests, Permitted saving request) ∧ Ordered saving [] requests := by
  rw [deepSaveAsyncChildrenOfObject] at ok
  cases collecting : collectDirtyChildren saving.toMemory object with
  | error actual => simp [collecting] at ok
  | ok found =>
      cases planning : waves (canBeSerializedAfterSaving saving)
          (remainingChildren order object found) [] with
      | none => simp [collecting, planning] at ok
      | some taken =>
          simp only [collecting, planning, Except.ok.injEq] at ok
          subst ok
          obtain ⟨all, inWaves⟩ := waves_spec _ [] taken planning
          have nodup : taken.flatten.Nodup := all.nodup_iff.mpr (order.nodup _)
          refine ⟨found, rfl, ?_, ?_, ?_, ?_⟩
          · rw [List.flatMap_append, objects_files, List.nil_append]
            exact (objects_requests taken nodup).trans all
          · rw [List.flatMap_append, List.flatMap_assoc]
            simp [files_requestsOfWave, List.flatMap_map, Request.files]
          · intro request member
            rcases List.mem_append.mp member with file | planned
            · obtain ⟨_, _, rfl⟩ := List.mem_map.mp file
              trivial
            · obtain ⟨wave, -, inWave⟩ := List.mem_flatMap.mp planned
              exact permitted_requestsOfWave wave request inWave
          · rw [ordered_append, objects_files]
            rw [canBeSerialized_eq] at inWaves
            refine ⟨ordered_ready [] _ ?_, ordered_waves [] _ taken inWaves nodup (by simp)⟩
            simp [objects_files]

/-- Otherwise each dirty object that can be reached, but for the one that is saved, and
each unsaved file is in one request; the lazy current user has one of its own. A request is
sent once all before it have succeeded, and what its objects need is saved by these. -/
theorem deepSave_batches (order : SetOrder ObjectReference) (fileOrder : SetOrder PFFile)
    (object : ObjectReference) (inside : object ∈ saving.known) (requests : List Request)
    (ok : deepSaveAsyncChildrenOfObject saving order fileOrder object = .ok requests)
    (succeeds : Request → Bool) :
    ((requests.flatMap Request.objects).Nodup ∧
      ∀ other, other ∈ requests.flatMap Request.objects ↔ other ≠ object ∧
        ReflTransGen (Mentions saving.toMemory) object other ∧
          dirty saving.toMemory other = true) ∧
      ((requests.flatMap Request.files).Nodup ∧
        ∀ file, file ∈ requests.flatMap Request.files ↔ file.url = none ∧
          ∃ other, ReflTransGen (Mentions saving.toMemory) object other ∧
            .file file ∈ leavesOf saving.toMemory other) ∧
      (∀ request ∈ requests, Permitted saving request) ∧
      (sent succeeds requests <+: requests ∧
        ((∀ request ∈ requests, succeeds request = true) → sent succeeds requests = requests)) ∧
      ∀ before request after, sent succeeds requests = before ++ request :: after →
        (∀ earlier ∈ before, succeeds earlier = true) ∧
          ∀ child ∈ request.objects, needs saving child ≠ none ∧
            ∀ need, Needs (needs saving) child need → need ∈ before.flatMap Request.objects := by
  obtain ⟨found, collecting, objects, files, permitted, ordered⟩ :=
    deepSave_plans order fileOrder object requests ok
  refine ⟨⟨objects.nodup_iff.mpr (order.nodup _), fun other => ?_⟩, ?_, permitted,
    ⟨sent_begins succeeds requests, sent_all succeeds requests⟩, ?_⟩
  · rw [objects.mem_iff, mem_remaining_iff order object inside found collecting]
  · rw [files]
    refine ⟨fileOrder.nodup _, fun file => ?_⟩
    rw [fileOrder.members, (collect_spec object inside found collecting).2]
  · intro before request after split
    refine ⟨sent_split succeeds requests before after request split, fun child member => ?_⟩
    obtain ⟨unsent, whole⟩ := sent_begins succeeds requests
    rw [split, List.append_assoc] at whole
    exact ordered_split requests before (after ++ unsent) request ordered whole.symm child member

noncomputable def anyOrder {Element : Type} : SetOrder Element :=
  ⟨Finset.toList, Finset.nodup_toList, by simp⟩

theorem allObjects_singleton (order : SetOrder ObjectReference) (object : ObjectReference) :
    order.allObjects {object} = [object] := by
  apply List.perm_singleton.mp
  apply (List.perm_ext_iff_of_nodup (order.nodup _) (List.nodup_singleton object)).mpr
  simp [order.members]

def newRoom : ObjectReference := ⟨"Room", none, 3⟩

def newRoomFields : PFObject ParseValue :=
  (setObjectForKey (some (.object speaker)) "speaker" objectWithClassName).1

/-- The new room and its speaker, whose rooms are given, in memory without a current user. -/
def newRoomSaving (rooms : List ParseValue)
    (closed : ∀ entry ∈ [(newRoom, newRoomFields), (speaker, speakerFields rooms)],
      ∀ leaf ∈ objectLeaves none entry.2,
        ∀ child ∈ (match leaf with | .object child => [child] | .file _ => []),
          child ∈ [newRoom, speaker])
    (wellFormed : ∀ reference ∈ [newRoom, speaker], WellFormed reference
      ((Memory.ofList none [(newRoom, newRoomFields), (speaker, speakerFields rooms)]
        closed).object reference)) : Saving where
  toMemory := Memory.ofList none [(newRoom, newRoomFields), (speaker, speakerFields rooms)] closed
  currentUserIsLazy := false
  isDataAvailableForKey _ _ := true
  wellFormed := fun reference member => wellFormed reference (List.mem_toFinset.mp member)

/-- A speaker that points back to the new room. -/
theorem deepSave_raises_pointing_back :
    let saving := newRoomSaving [.object newRoom] (by decide) (by decide)
    deepSaveAsyncChildrenOfObject saving anyOrder anyOrder newRoom = .error relationToCycle ↔
      (relationToCycle = circularDependency ∧
        ∃ other, ReflTransGen (Mentions saving.toMemory) newRoom other ∧
          OnCycle (Mentions saving.toMemory) (New saving.toMemory) other) ∨
        (relationToCycle = relationToCycle ∧
          (¬ ∃ other, ReflTransGen (Mentions saving.toMemory) newRoom other ∧
            OnCycle (Mentions saving.toMemory) (New saving.toMemory) other) ∧
          ∃ child, (child ≠ newRoom ∧ ReflTransGen (Mentions saving.toMemory) newRoom child ∧
              dirty saving.toMemory child = true) ∧ Unsavable saving newRoom child) :=
  deepSave_raises_iff anyOrder anyOrder newRoom (by decide) relationToCycle

theorem deepSave_batches_speaker :
    let saving := newRoomSaving [] (by decide) (by decide)
    ∃ requests, deepSaveAsyncChildrenOfObject saving anyOrder anyOrder newRoom = .ok requests ∧
      ∀ other, other ∈ requests.flatMap Request.objects ↔ other ≠ newRoom ∧
        ReflTransGen (Mentions saving.toMemory) newRoom other ∧
          dirty saving.toMemory other = true := by
  intro saving
  have found : collectDirtyChildren saving.toMemory newRoom = .ok ⟨{newRoom, speaker}, ∅⟩ := by
    decide
  have rest : ({newRoom, speaker} : Finset ObjectReference).erase newRoom = {speaker} := by decide
  have ready : canBeSerializedAfterSaving saving [] speaker = true := by decide
  have planned : requestsOfWave saving [speaker] = [.saveBatches [[speaker]]] := rfl
  have ok : deepSaveAsyncChildrenOfObject saving anyOrder anyOrder newRoom =
      .ok [.saveBatches [[speaker]]] := by
    clear_value saving
    simp only [deepSaveAsyncChildrenOfObject, found, remainingChildren, rest,
      allObjects_singleton]
    simp [waves, readyNow, notYet, ready, planned, anyOrder]
  exact ⟨_, ok, (deepSave_batches anyOrder anyOrder newRoom (by decide) _ ok
    fun _ => true).1.2⟩

end CollectionViewWorkshop.SaveWaves
