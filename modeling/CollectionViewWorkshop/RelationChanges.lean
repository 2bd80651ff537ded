import CollectionViewWorkshop.RelationOperations
import CollectionViewWorkshop.SaveWaves
import CollectionViewWorkshop.StoredOperations

/-!
What the calls of a `PFRelation` do to the object it belongs to, and how the
operation they leave there is encoded and decoded. The relation is one made by
`relationForKey:`, not the one in the estimated data. The operations of a batch
are those of a relation. Of a value that is no relation, and of an operation that
is not a relation's, only that it is there matters.
-/

namespace CollectionViewWorkshop.RelationChanges

open FieldOperations ParseCoding ParseValues RelationOperations SaveWaves StoredOperations

inductive Held where
  | relation (relation : PFRelation)
  | other
  deriving DecidableEq

/-- An operation that no change of a relation is merged into. -/
inductive Rival where
  | delete
  | other
  deriving DecidableEq

inductive Unsaved where
  | relation (operation : PFRelationOperation)
  | rival (rival : Rival)
  deriving DecidableEq

structure Related where
  relation : PFRelation
  estimated : Option Held
  unsaved : Option Unsaved
  deriving DecidableEq

def heldRelation : Option Held → Option PFRelation
  | some (.relation relation) => some relation
  | _ => none

def classOf (held : Option PFRelation) : Option NSString :=
  held.bind PFRelation.targetClass

def knownOf (held : Option PFRelation) : Finset ObjectReference :=
  held.elim ∅ PFRelation.knownObjects

def relationForKey (estimated : Option Held) (unsaved : Option Unsaved) : Related :=
  ⟨⟨classOf (heldRelation estimated), ∅⟩, estimated, unsaved⟩

/-- The key, with the relation asked for once more. -/
def Related.again (related : Related) : Related :=
  relationForKey related.estimated related.unsaved

def mergeWithUnsaved (operation : PFRelationOperation) :
    Option Unsaved → Except Raised PFRelationOperation
  | none => .ok operation
  | some (.relation previous) => mergeRelation operation previous
  | some (.rival .delete) =>
      .error (.internalInconsistency "You can't modify a relation after deleting it")
  | some (.rival .other) =>
      .error (.internalInconsistency "Operation is invalid after previous operation")

def applyToEstimated (operation : PFRelationOperation) :
    Option Held → Except Raised PFRelation
  | none => applyRelation operation none
  | some (.relation relation) => applyRelation operation (some relation)
  | some .other => .error invalidAfterPrevious

/-- The estimated data have changed by the time the merge raises. -/
def performOperation (operation : PFRelationOperation) (related : Related) :
    Related × Option Raised :=
  match applyToEstimated operation related.estimated with
  | .error raised => (related, some raised)
  | .ok value =>
      let applied := { related with estimated := some (.relation value) }
      match mergeWithUnsaved operation related.unsaved with
      | .error raised => (applied, some raised)
      | .ok merged => ({ applied with unsaved := some (.relation merged) }, none)

def changeRelation (made : Except Raised PFRelationOperation)
    (change : Finset ObjectReference → Finset ObjectReference) (related : Related) :
    Related × Option Raised :=
  match made with
  | .error raised => (related, some raised)
  | .ok operation =>
      match performOperation operation related with
      | (after, some raised) => (after, some raised)
      | (after, none) =>
          ({ after with
            relation := ⟨operation.targetClass, change after.relation.knownObjects⟩ }, none)

def addObject (object : ObjectReference) (related : Related) : Related × Option Raised :=
  changeRelation (addRelationToObjects [object]) (insert object) related

def removeObject (object : ObjectReference) (related : Related) : Related × Option Raised :=
  changeRelation (removeRelationToObjects [object]) (fun known => known.erase object) related

inductive Change where
  | add (object : ObjectReference)
  | remove (object : ObjectReference)
  deriving DecidableEq

namespace Change

def object : Change → ObjectReference
  | .add object => object
  | .remove object => object

def make : Change → Related → Related × Option Raised
  | .add object => addObject object
  | .remove object => removeObject object

def members (known : Finset ObjectReference) : Change → Finset ObjectReference
  | .add object => insert object known
  | .remove object => known.erase object

def operation : Change → PFRelationOperation
  | .add object => ⟨some object.className, {object}, ∅⟩
  | .remove object => ⟨some object.className, ∅, {object}⟩

end Change

def changesInTurn (changes : List Change) (related : Related) : Related :=
  changes.foldl (fun related change => (change.make related).1) related

/-- The class of the relation, which the first change gives to one that has none. -/
def heldClass (before : Option PFRelation) (changes : List Change) : Option NSString :=
  (classOf before).or (changes.head?.map fun change => change.object.className)

/-- A change of the relation always raises here. -/
def Blocked (estimated : Option Held) (rival : Option Rival) : Prop :=
  estimated = some .other ∨ rival ≠ none

instance (estimated : Option Held) (rival : Option Rival) : Decidable (Blocked estimated rival) :=
  inferInstanceAs (Decidable (_ ∨ _))

def accepted (held : Option NSString) (changes : List Change) : List Change :=
  changes.filter fun change => decide (some change.object.className = held)

@[simp] theorem operation_targetClass (change : Change) :
    change.operation.targetClass = some change.object.className := by
  cases change <;> rfl

theorem make_eq (change : Change) (related : Related) :
    change.make related =
      changeRelation (.ok change.operation) (fun known => change.members known) related := by
  cases change with
  | add object => simp [Change.make, addObject, addRelationToObjects]; rfl
  | remove object => simp [Change.make, removeObject, removeRelationToObjects]; rfl

/-- What is unsaved leads from the relation before to the estimated one, and there is
something to send in it, all of one class. -/
structure Pending (before : Option PFRelation) (held : NSString) (done : List Change)
    (related : Related) (operation : PFRelationOperation) : Prop where
  made : done ≠ []
  unsaved : related.unsaved = some (.relation operation)
  targetClass : operation.targetClass = some held
  estimated : related.estimated =
    some (.relation ⟨some held, done.foldl Change.members (knownOf before)⟩)
  applied : applyRelation operation before =
    .ok ⟨some held, done.foldl Change.members (knownOf before)⟩
  sends : (operation.relationsToAdd ∪ operation.relationsToRemove).Nonempty
  classes : ∀ object ∈ operation.relationsToAdd ∪ operation.relationsToRemove,
    object.className = held

def Untouched (before : Option PFRelation) (related : Related) : Prop :=
  related.estimated = before.map .relation ∧ related.unsaved = none

def Kept (before : Option PFRelation) (held : NSString) (done : List Change)
    (related : Related) : Prop :=
  (done = [] ∧ classOf before = some held ∧ Untouched before related) ∨
    ∃ operation, Pending before held done related operation

@[simp] theorem heldRelation_map (before : Option PFRelation) :
    heldRelation (before.map .relation) = before := by
  cases before <;> rfl

@[simp] theorem applyToEstimated_map (operation : PFRelationOperation)
    (before : Option PFRelation) :
    applyToEstimated operation (before.map .relation) = applyRelation operation before := by
  cases before <;> rfl

theorem apply_change (change : Change) (held : NSString) (estimated : Option PFRelation)
    (ofClass : change.object.className = held)
    (fits : classOf estimated = none ∨ classOf estimated = some held) :
    applyRelation change.operation estimated =
      .ok ⟨some held, change.members (knownOf estimated)⟩ := by
  subst ofClass
  have members : ∀ known : Finset ObjectReference,
      (known ∪ change.operation.relationsToAdd) \ change.operation.relationsToRemove =
        change.members known := by
    intro known
    cases change with
    | add object => simp [Change.operation, Change.members]
    | remove object => simp [Change.operation, Change.members, Finset.sdiff_singleton_eq_erase]
  rw [applyRelation_ok_iff]
  cases estimated with
  | none => simp [← members, knownOf]
  | some relation =>
      have either : relation.targetClass = none ∨
          relation.targetClass = some change.object.className := by simpa [classOf] using fits
      rcases either with missing | same
      · simp [members, knownOf, missing]
      · simp [members, knownOf, same]

theorem apply_otherClass (change : Change) (held : NSString) (estimated : Option PFRelation)
    (other : change.object.className ≠ held) (holds : classOf estimated = some held) :
    applyRelation change.operation estimated =
      .error (relatedClass (some held) (some change.object.className)) := by
  cases estimated with
  | none => simp [classOf] at holds
  | some relation =>
      have same : relation.targetClass = some held := by simpa [classOf] using holds
      simp [applyRelation, same, sameClass, Ne.symm other]

theorem make_otherClass (change : Change) (held : NSString) (related : Related)
    (shown : Option PFRelation) (estimated : related.estimated = shown.map .relation)
    (other : change.object.className ≠ held) (holds : classOf shown = some held) :
    change.make related =
      (related, some (relatedClass (some held) (some change.object.className))) := by
  rw [make_eq, changeRelation, performOperation, estimated, applyToEstimated_map,
    apply_otherClass change held shown other holds]

theorem sends_change (change : Change) :
    change.operation.relationsToAdd ∪ change.operation.relationsToRemove = {change.object} := by
  cases change <;> simp [Change.operation, Change.object]

theorem make_first (before : Option PFRelation) (change : Change) (held : NSString)
    (related : Related) (untouched : Untouched before related)
    (ofClass : change.object.className = held)
    (fits : classOf before = none ∨ classOf before = some held) :
    (change.make related).2 = none ∧
      Pending before held [change] (change.make related).1 change.operation := by
  have applied := apply_change change held before ofClass fits
  obtain ⟨estimated, unsaved⟩ := untouched
  rw [make_eq, changeRelation, performOperation, estimated, applyToEstimated_map, applied, unsaved]
  refine ⟨rfl, ⟨List.cons_ne_nil _ _, rfl, ?_, rfl, applied, ?_, ?_⟩⟩
  · rw [operation_targetClass, ofClass]
  · rw [sends_change]
    exact Finset.singleton_nonempty change.object
  · intro object inside
    rw [sends_change, Finset.mem_singleton] at inside
    rw [inside, ofClass]

theorem sends_merged (operation previous merged : PFRelationOperation)
    (merges : mergeRelation operation previous = .ok merged) :
    merged.relationsToAdd ∪ merged.relationsToRemove =
      previous.relationsToAdd ∪ previous.relationsToRemove ∪
        (operation.relationsToAdd ∪ operation.relationsToRemove) := by
  rw [((mergeRelation_ok_iff operation previous merged).mp merges).2]
  ext object
  simp only [Finset.mem_union, Finset.mem_sdiff]
  tauto

theorem make_next (before : Option PFRelation) (held : NSString) (done : List Change)
    (related : Related) (operation : PFRelationOperation) (change : Change)
    (pending : Pending before held done related operation)
    (ofClass : change.object.className = held) :
    (change.make related).2 = none ∧
      ∃ merged, Pending before held (done ++ [change]) (change.make related).1 merged := by
  have next := apply_change change held
    (some ⟨some held, done.foldl Change.members (knownOf before)⟩) ofClass (Or.inr rfl)
  have members : ∀ known, change.members (done.foldl Change.members known) =
      (done ++ [change]).foldl Change.members known := by
    intro known
    rw [List.foldl_append]
    rfl
  have known : knownOf (some ⟨some held, done.foldl Change.members (knownOf before)⟩) =
      done.foldl Change.members (knownOf before) := rfl
  rw [known, members] at next
  obtain ⟨merged, merges⟩ : ∃ merged, mergeRelation change.operation operation = .ok merged := by
    refine ⟨_, (mergeRelation_ok_iff change.operation operation _).mpr ⟨Or.inr ?_, rfl⟩⟩
    rw [pending.targetClass, operation_targetClass, ofClass]
  have sends := sends_merged change.operation operation merged merges
  rw [sends_change] at sends
  rw [make_eq, changeRelation, performOperation, pending.estimated, applyToEstimated, next,
    pending.unsaved, mergeWithUnsaved, merges]
  refine ⟨rfl, merged, ⟨by simp, rfl, ?_, rfl, ?_, ?_, ?_⟩⟩
  · rw [((mergeRelation_ok_iff change.operation operation merged).mp merges).2,
      operation_targetClass, ofClass]
  · exact (merged_relations change.operation operation merged before _ _ merges
      pending.applied).mpr next
  · rw [sends]
    exact pending.sends.inl
  · intro object inside
    rw [sends, Finset.mem_union, Finset.mem_singleton] at inside
    rcases inside with earlier | rfl
    · exact pending.classes object earlier
    · exact ofClass

/-- A change raises exactly when its object is of another class, and is otherwise made. -/
theorem make_spec (before : Option PFRelation) (held : NSString) (done : List Change)
    (related : Related) (change : Change) (kept : Kept before held done related) :
    ((change.make related).2 = none ↔ change.object.className = held) ∧
      Kept before held (done ++ accepted (some held) [change]) (change.make related).1 := by
  by_cases ofClass : change.object.className = held
  · have made : (change.make related).2 = none ∧
        ∃ operation, Pending before held (done ++ [change]) (change.make related).1 operation := by
      rcases kept with ⟨rfl, holds, untouched⟩ | ⟨operation, pending⟩
      · obtain ⟨silent, first⟩ := make_first before change held related untouched ofClass
          (Or.inr holds)
        exact ⟨silent, change.operation, first⟩
      · exact make_next before held done related operation change pending ofClass
    obtain ⟨silent, operation, pending⟩ := made
    refine ⟨by simp [silent, ofClass], Or.inr ⟨operation, ?_⟩⟩
    simpa [accepted, ofClass] using pending
  · obtain ⟨shown, estimated, holds⟩ :
        ∃ shown, related.estimated = shown.map .relation ∧ classOf shown = some held := by
      rcases kept with ⟨-, holds, untouched⟩ | ⟨operation, pending⟩
      · exact ⟨before, untouched.1, holds⟩
      · exact ⟨some _, pending.estimated, rfl⟩
    rw [make_otherClass change held related shown estimated ofClass holds]
    refine ⟨by simp [ofClass], ?_⟩
    simpa [accepted, ofClass] using kept

theorem kept_inTurn (before : Option PFRelation) (held : NSString) (done : List Change)
    (changes : List Change) (related : Related) (kept : Kept before held done related) :
    Kept before held (done ++ accepted (some held) changes) (changesInTurn changes related) := by
  induction changes generalizing done related with
  | nil => simpa [accepted, changesInTurn] using kept
  | cons change rest ih =>
      obtain ⟨-, next⟩ := make_spec before held done related change kept
      have later := ih (done ++ accepted (some held) [change]) (change.make related).1 next
      rwa [List.append_assoc, accepted, accepted, ← List.filter_append] at later

theorem kept_again (before : Option PFRelation) (held : NSString) (done : List Change)
    (related : Related) (kept : Kept before held done related) :
    Kept before held done related.again ∧
      related.again.relation = ⟨some held, ∅⟩ := by
  rcases kept with ⟨nothing, holds, estimated, unsaved⟩ | ⟨operation, pending⟩
  · refine ⟨Or.inl ⟨nothing, holds, estimated, unsaved⟩, ?_⟩
    rw [Related.again, relationForKey, estimated, heldRelation_map, holds]
  · refine ⟨Or.inr ⟨operation, pending.made, pending.unsaved, pending.targetClass,
      pending.estimated, pending.applied, pending.sends, pending.classes⟩, ?_⟩
    rw [Related.again, relationForKey, pending.estimated]
    rfl

theorem make_relation (change : Change) (related : Related) :
    (change.make related).1.relation = if (change.make related).2 = none then
      ⟨some change.object.className, change.members related.relation.knownObjects⟩
    else related.relation := by
  rw [make_eq, changeRelation, performOperation]
  cases applyToEstimated change.operation related.estimated with
  | error raised => rfl
  | ok value =>
      cases mergeWithUnsaved change.operation related.unsaved with
      | error raised => simp
      | ok merged => simp

theorem relation_inTurn (before : Option PFRelation) (held : NSString) (done changes : List Change)
    (related : Related) (kept : Kept before held done related)
    (ofClass : related.relation.targetClass = some held) :
    (changesInTurn changes related).relation = ⟨some held,
      (accepted (some held) changes).foldl Change.members related.relation.knownObjects⟩ := by
  induction changes generalizing done related with
  | nil =>
      obtain ⟨⟨targetClass, known⟩, estimated, unsaved⟩ := related
      cases ofClass
      rfl
  | cons change rest ih =>
      obtain ⟨raises, next⟩ := make_spec before held done related change kept
      have changed := make_relation change related
      have later := ih _ (change.make related).1 next
      by_cases fits : change.object.className = held
      · rw [if_pos (raises.mpr fits)] at changed
        rw [changed] at later
        simpa [changesInTurn, accepted, fits] using later
      · rw [if_neg (mt raises.mp fits)] at changed
        rw [changed] at later
        simpa [changesInTurn, accepted, fits] using later ofClass

theorem first_kept (before : Option PFRelation) (change : Change) (rest : List Change)
    (related : Related) (untouched : Untouched before related) (classless : classOf before = none) :
    Kept before change.object.className (accepted (some change.object.className) (change :: rest))
      (changesInTurn (change :: rest) related) := by
  -- the first change gives the relation its class
  obtain ⟨-, first⟩ := make_first before change change.object.className related untouched rfl
    (Or.inl classless)
  have later := kept_inTurn before change.object.className [change] rest _ (Or.inr ⟨_, first⟩)
  simpa [accepted, changesInTurn] using later

/-- After any changes, the key has the members the accepted ones leave in turn. -/
theorem kept_changes (before : Option PFRelation) (changes : List Change) (related : Related)
    (untouched : Untouched before related) :
    (classOf before = none ∧ changes = []) ∨
      ∃ held, heldClass before changes = some held ∧
        Kept before held (accepted (some held) changes) (changesInTurn changes related) := by
  cases holds : classOf before with
  | some held =>
      right
      exact ⟨held, by rw [heldClass, holds]; rfl,
        kept_inTurn before held [] changes _ (Or.inl ⟨rfl, holds, untouched⟩)⟩
  | none =>
      cases changes with
      | nil => exact Or.inl ⟨rfl, rfl⟩
      | cons change rest =>
          right
          exact ⟨change.object.className, by rw [heldClass, holds]; rfl,
            first_kept before change rest related untouched holds⟩

/-- A blocked change raises; it leaves the relation and what is unsaved as they were. -/
theorem make_blocked (change : Change) (related : Related) (rival : Option Rival)
    (unsaved : related.unsaved = rival.map .rival) (blocked : Blocked related.estimated rival) :
    (change.make related).2 ≠ none ∧ (change.make related).1.relation = related.relation ∧
      (change.make related).1.unsaved = related.unsaved ∧
        Blocked (change.make related).1.estimated rival := by
  rw [make_eq, changeRelation, performOperation]
  cases applied : applyToEstimated change.operation related.estimated with
  | error raised => exact ⟨by simp, rfl, rfl, blocked⟩
  | ok value =>
      -- the value under the key is none that a relation cannot be made of
      have stands : rival ≠ none := by
        refine blocked.resolve_left fun other => ?_
        rw [other] at applied
        cases applied
      obtain ⟨rival, rfl⟩ := Option.ne_none_iff_exists'.mp stands
      cases rival <;> simp [unsaved, mergeWithUnsaved, Blocked]

theorem blocked_inTurn (changes : List Change) (related : Related) (rival : Option Rival)
    (unsaved : related.unsaved = rival.map .rival) (blocked : Blocked related.estimated rival) :
    (changesInTurn changes related).relation = related.relation ∧
      (changesInTurn changes related).unsaved = related.unsaved ∧
        Blocked (changesInTurn changes related).estimated rival := by
  induction changes generalizing related with
  | nil => exact ⟨rfl, rfl, blocked⟩
  | cons change rest ih =>
      obtain ⟨-, relation, same, still⟩ := make_blocked change related rival unsaved blocked
      have later := ih (change.make related).1 (same.trans unsaved) still
      exact ⟨later.1.trans relation, later.2.1.trans same, later.2.2⟩

variable (platform : Platform)

/-- `_convertToArrayInSet:withObjectEncoder:`, under the name of an operation. -/
def encodedSet (order : SetOrder ObjectReference) (operationName : NSString)
    (objects : Finset ObjectReference) : JSON :=
  .dictionary [("__op", .string operationName),
    ("objects", .array (encodeArray platform ((order.allObjects objects).map .object)))]

def encodeTargets (order : SetOrder ObjectReference) (operationName : NSString)
    (objects : Finset ObjectReference) : Option JSON :=
  if objects = ∅ then none else some (encodedSet platform order operationName objects)

def encodeRelation (order : SetOrder ObjectReference) (operation : PFRelationOperation) :
    Except Raised JSON :=
  match encodeTargets platform order "AddRelation" operation.relationsToAdd,
      encodeTargets platform order "RemoveRelation" operation.relationsToRemove with
  | some addDict, some removeDict =>
      .ok (.dictionary [("__op", .string "Batch"), ("ops", .array [addDict, removeDict])])
  | some addDict, none => .ok addDict
  | none, some removeDict => .ok removeDict
  | none, none =>
      .error (.internalInconsistency "A PFRelationOperation was created without any data.")

def targetsOf : List ParseValue → Except Undecoded (List ObjectReference)
  | [] => .ok []
  | .object target :: rest => (targetsOf rest).map (target :: ·)
  | _ :: _ => .error .malformed

/-- `made` is `addRelationToObjects` or `removeRelationToObjects`. -/
def decodeTargets (made : List ObjectReference → Except Raised PFRelationOperation)
    (encoded : List (NSString × JSON)) : Except Undecoded PFRelationOperation := do
  let targets ← targetsOf (← decodeObjects platform encoded)
  (made targets).mapError .raised

mutual

def decodeRelation : JSON → Except Undecoded PFRelationOperation
  | .dictionary entries =>
      match entries.lookup "__op" with
      | some (.string operationName) =>
          if operationName = "Batch" then do
            match ← decodeBatch entries with
            | some operation => return operation
            | none => throw .noValue
          else if operationName = "AddRelation" then
            decodeTargets platform addRelationToObjects entries
          else if operationName = "RemoveRelation" then
            decodeTargets platform removeRelationToObjects entries
          else .error .noValue
      | _ => .error .malformed
  | _ => .error .malformed

def decodeBatch : List (NSString × JSON) → Except Undecoded (Option PFRelationOperation)
  | [] => .ok none
  | (key, value) :: rest =>
      if key = "ops" then
        match value with
        | .array operations => decodeOperations operations none
        | _ => .error .malformed
      else decodeBatch rest

def decodeOperations : List JSON → Option PFRelationOperation →
    Except Undecoded (Option PFRelationOperation)
  | [], previous => .ok previous
  | encoded :: rest, previous => do
      let next ← decodeRelation encoded
      let merged ← (mergeWithUnsaved next (previous.map .relation)).mapError .raised
      decodeOperations rest (some merged)

end

theorem targetsOf_objects (targets : List ObjectReference) :
    targetsOf (targets.map .object) = .ok targets := by
  induction targets with
  | nil => rfl
  | cons target rest ih => rw [List.map_cons, targetsOf, ih]; rfl

theorem readableArray_objects (targets : List ObjectReference)
    (readable : ∀ target ∈ targets, ReadableObject platform target) :
    ReadableArray platform (targets.map .object) := by
  induction targets with
  | nil => trivial
  | cons target rest ih =>
      exact ⟨readable target List.mem_cons_self,
        ih fun other inside => readable other (List.mem_cons_of_mem target inside)⟩

theorem allObjects_toFinset (order : SetOrder ObjectReference) (objects : Finset ObjectReference) :
    (order.allObjects objects).toFinset = objects := by
  ext object
  rw [List.mem_toFinset, order.members]

theorem head_class (order : SetOrder ObjectReference) (objects : Finset ObjectReference)
    (held : NSString) (nonempty : objects.Nonempty)
    (classes : ∀ object ∈ objects, object.className = held) :
    (order.allObjects objects).head?.map ObjectReference.className = some held := by
  cases listed : order.allObjects objects with
  | nil =>
      obtain ⟨object, inside⟩ := nonempty
      rw [← order.members, listed] at inside
      cases inside
  | cons first rest =>
      have inside : first ∈ objects := by
        rw [← order.members, listed]
        exact List.mem_cons_self
      simp [classes first inside]

theorem decodeTargets_encode (made : List ObjectReference → Except Raised PFRelationOperation)
    (operationName : NSString) (targets : List ObjectReference)
    (readable : ∀ target ∈ targets, ReadableObject platform target) :
    decodeTargets platform made [("__op", .string operationName),
      ("objects", .array (encodeArray platform (targets.map .object)))] =
        (made targets).mapError .raised := by
  have decoded := (decodeArray_encode platform _).mpr
    (readableArray_objects platform targets readable)
  simp [-bind_pure_comp, decodeTargets, decodeObjects, List.lookup_cons, decoded,
    targetsOf_objects, Bind.bind, Except.bind]

variable {platform}

theorem add_decoded (order : SetOrder ObjectReference) (objects : Finset ObjectReference)
    (held : NSString) (nonempty : objects.Nonempty)
    (classes : ∀ object ∈ objects, object.className = held) :
    addRelationToObjects (order.allObjects objects) = .ok ⟨some held, objects, ∅⟩ := by
  have each : ∀ object ∈ order.allObjects objects, some object.className = some held := by
    intro object inside
    rw [classes object ((order.members objects object).mp inside)]
  simp only [addRelationToObjects, head_class order objects held nonempty classes, if_pos each,
    allObjects_toFinset]

theorem remove_decoded (order : SetOrder ObjectReference) (objects : Finset ObjectReference)
    (held : NSString) (nonempty : objects.Nonempty)
    (classes : ∀ object ∈ objects, object.className = held) :
    removeRelationToObjects (order.allObjects objects) = .ok ⟨some held, ∅, objects⟩ := by
  have each : ∀ object ∈ order.allObjects objects, some object.className = some held := by
    intro object inside
    rw [classes object ((order.members objects object).mp inside)]
  simp only [removeRelationToObjects, head_class order objects held nonempty classes,
    if_pos each, allObjects_toFinset]

theorem decode_added (order : SetOrder ObjectReference) (objects : Finset ObjectReference)
    (held : NSString) (nonempty : objects.Nonempty)
    (classes : ∀ object ∈ objects, object.className = held)
    (readable : ∀ object ∈ objects, ReadableObject platform object) :
    decodeRelation platform (encodedSet platform order "AddRelation" objects) =
      .ok ⟨some held, objects, ∅⟩ := by
  have decoded := decodeTargets_encode platform addRelationToObjects "AddRelation"
    (order.allObjects objects) fun target inside =>
      readable target ((order.members objects target).mp inside)
  rw [add_decoded order objects held nonempty classes] at decoded
  simpa [encodedSet, decodeRelation, List.lookup_cons, Except.mapError] using decoded

theorem decode_removed (order : SetOrder ObjectReference) (objects : Finset ObjectReference)
    (held : NSString) (nonempty : objects.Nonempty)
    (classes : ∀ object ∈ objects, object.className = held)
    (readable : ∀ object ∈ objects, ReadableObject platform object) :
    decodeRelation platform (encodedSet platform order "RemoveRelation" objects) =
      .ok ⟨some held, ∅, objects⟩ := by
  have decoded := decodeTargets_encode platform removeRelationToObjects
    "RemoveRelation" (order.allObjects objects) fun target inside =>
      readable target ((order.members objects target).mp inside)
  rw [remove_decoded order objects held nonempty classes] at decoded
  simpa [encodedSet, decodeRelation, List.lookup_cons, Except.mapError] using decoded

theorem decode_batch (addDict removeDict : JSON) (held : NSString)
    (added removed : Finset ObjectReference)
    (first : decodeRelation platform addDict = .ok ⟨some held, added, ∅⟩)
    (second : decodeRelation platform removeDict = .ok ⟨some held, ∅, removed⟩) :
    decodeRelation platform
      (.dictionary [("__op", .string "Batch"), ("ops", .array [addDict, removeDict])]) =
        .ok ⟨some held, added, removed⟩ := by
  -- the halves are merged into the operation they were taken from
  have merged : mergeRelation ⟨some held, ∅, removed⟩ ⟨some held, added, ∅⟩ =
      .ok ⟨some held, added, removed⟩ := by
    rw [mergeRelation_ok_iff]
    simp
  simp [-bind_pure_comp, decodeRelation, decodeBatch, decodeOperations, first, second,
    merged, mergeWithUnsaved, Bind.bind, Except.bind, pure, Except.pure, Except.mapError]

/-- An operation with something to send is encoded, and decoded into itself. -/
theorem decode_encodeRelation (order : SetOrder ObjectReference) (operation : PFRelationOperation)
    (held : NSString) (targetClass : operation.targetClass = some held)
    (sends : (operation.relationsToAdd ∪ operation.relationsToRemove).Nonempty)
    (classes : ∀ object ∈ operation.relationsToAdd ∪ operation.relationsToRemove,
      object.className = held) :
    ∃ encoded, encodeRelation platform order operation = .ok encoded ∧
      ((∀ object ∈ operation.relationsToAdd ∪ operation.relationsToRemove,
        ReadableObject platform object) → decodeRelation platform encoded = .ok operation) := by
  obtain ⟨heldBy, added, removed⟩ := operation
  cases targetClass
  simp only [Finset.mem_union] at classes ⊢
  rcases added.eq_empty_or_nonempty with rfl | adds
  · have removes : removed.Nonempty := by simpa using sends
    refine ⟨encodedSet platform order "RemoveRelation" removed, ?_, fun readable => ?_⟩
    · simp [encodeRelation, encodeTargets, removes.ne_empty]
    · exact decode_removed order removed held removes (fun object inside =>
        classes object (Or.inr inside)) fun object inside => readable object (Or.inr inside)
  · rcases removed.eq_empty_or_nonempty with rfl | removes
    · refine ⟨encodedSet platform order "AddRelation" added, ?_, fun readable => ?_⟩
      · simp [encodeRelation, encodeTargets, adds.ne_empty]
      · exact decode_added order added held adds (fun object inside =>
          classes object (Or.inl inside)) fun object inside => readable object (Or.inl inside)
    · refine ⟨.dictionary [("__op", .string "Batch"),
        ("ops", .array [encodedSet platform order "AddRelation" added,
          encodedSet platform order "RemoveRelation" removed])], ?_, fun readable => ?_⟩
      · simp [encodeRelation, encodeTargets, adds.ne_empty, removes.ne_empty]
      · apply decode_batch
        · exact decode_added order added held adds (fun object inside =>
            classes object (Or.inl inside)) fun object inside => readable object (Or.inl inside)
        · exact decode_removed order removed held removes (fun object inside =>
            classes object (Or.inr inside)) fun object inside => readable object (Or.inr inside)

theorem heldClass_append (before : Option PFRelation) (front back : List Change)
    (held : NSString) (holds : heldClass before front = some held) :
    heldClass before (front ++ back) = some held := by
  cases front with
  | nil =>
      have class_ : classOf before = some held := by simpa [heldClass] using holds
      simp [heldClass, class_]
  | cons change rest => exact holds

/-- Where the key stands when the relation is asked for again after earlier changes. -/
def afterwards (estimated : Option Held) (rival : Option Rival) (earlier : List Change) : Related :=
  (changesInTurn earlier (relationForKey estimated (rival.map .rival))).again

theorem changes_kept (before : Option PFRelation) (earlier changes : List Change) :
    (classOf before = none ∧ earlier = [] ∧ changes = []) ∨
      ∃ held, heldClass before (earlier ++ changes) = some held ∧
        Kept before held (accepted (some held) (earlier ++ changes))
          (changesInTurn changes (afterwards (before.map .relation) none earlier)) ∧
        (changesInTurn changes (afterwards (before.map .relation) none earlier)).relation =
          ⟨some held, (accepted (some held) changes).foldl Change.members ∅⟩ := by
  have untouched : Untouched before (relationForKey (before.map .relation) none) := ⟨rfl, rfl⟩
  rcases kept_changes before earlier _ untouched with ⟨classless, rfl⟩ | ⟨held, holds, kept⟩
  · cases changes with
    | nil => exact Or.inl ⟨classless, rfl, rfl⟩
    | cons change rest =>
        right
        have start : Untouched before (afterwards (before.map .relation) none []) := ⟨rfl, rfl⟩
        obtain ⟨silent, first⟩ := make_first before change change.object.className _ start rfl
          (Or.inl classless)
        have changed := make_relation change (afterwards (before.map .relation) none [])
        rw [if_pos silent] at changed
        refine ⟨change.object.className, by simp [heldClass, classless],
          first_kept before change rest _ start classless, ?_⟩
        have later := relation_inTurn before change.object.className [change] rest _
          (Or.inr ⟨_, first⟩) (by rw [changed])
        have fresh : (afterwards (before.map .relation) none []).relation.knownObjects = ∅ := rfl
        rw [changed, fresh] at later
        simpa [changesInTurn, accepted] using later
  · right
    obtain ⟨start, relation⟩ := kept_again before held _ _ kept
    refine ⟨held, heldClass_append before earlier changes held holds, ?_, ?_⟩
    · have later := kept_inTurn before held _ changes _ start
      rwa [accepted, accepted, ← List.filter_append] at later
    · have later := relation_inTurn before held _ changes _ start (by rw [relation])
      rwa [relation] at later

theorem raises_iff (before : Option PFRelation) (earlier front back : List Change)
    (change : Change) :
    (change.make (changesInTurn front (afterwards (before.map .relation) none earlier))).2 = none ↔
      some change.object.className = heldClass before (earlier ++ (front ++ change :: back)) := by
  rcases changes_kept before earlier front with ⟨classless, rfl, rfl⟩ | ⟨held, holds, kept, -⟩
  · have first := make_first before change change.object.className
      (afterwards (before.map .relation) none []) ⟨rfl, rfl⟩ rfl (Or.inl classless)
    simpa [heldClass, classless, changesInTurn] using first.1
  · rw [← List.append_assoc, heldClass_append before _ _ held holds, Option.some.injEq]
    exact (make_spec before held _ _ change kept).1

theorem free_start (estimated : Option Held) (rival : Option Rival)
    (free : ¬ Blocked estimated rival) :
    rival = none ∧ estimated = (heldRelation estimated).map .relation := by
  rw [Blocked, not_or, not_not] at free
  refine ⟨free.2, ?_⟩
  cases estimated with
  | none => rfl
  | some held =>
      cases held with
      | relation relation => rfl
      | other => exact absurd rfl free.1

theorem blocked_afterwards (estimated : Option Held) (rival : Option Rival)
    (earlier : List Change) (blocked : Blocked estimated rival) :
    (afterwards estimated rival earlier).unsaved = rival.map .rival ∧
      Blocked (afterwards estimated rival earlier).estimated rival := by
  have begun := blocked_inTurn earlier (relationForKey estimated (rival.map .rival)) rival rfl
    blocked
  exact ⟨begun.2.1, begun.2.2⟩

theorem pending_sent (platform : Platform) (order : SetOrder ObjectReference)
    (before : Option PFRelation) (held : NSString) (done : List Change) (related : Related)
    (operation : PFRelationOperation) (pending : Pending before held done related operation) :
    (applyRelation operation before).toOption = heldRelation related.estimated ∧
      ∃ encoded, encodeRelation platform order operation = .ok encoded ∧
        ((∀ object ∈ operation.relationsToAdd ∪ operation.relationsToRemove,
          ReadableObject platform object) → decodeRelation platform encoded = .ok operation) := by
  constructor
  · rw [pending.applied, pending.estimated]
    rfl
  · exact decode_encodeRelation order operation held pending.targetClass pending.sends
      pending.classes

/-- Whatever is added to a relation and removed from it, after whatever was changed through
an earlier one, a change raises exactly when its object is of another class, or when the key
holds another value or an operation that is not a relation's. A relation that is changed is of
the class, and knows the objects, the accepted changes leave. What is unsaved then leads from the
relation before to the one the object shows; it is encoded without raising, and decoded into
itself where the decoder hands out the same objects. -/
theorem changes_saved (platform : Platform) (order : SetOrder ObjectReference)
    (estimated : Option Held) (rival : Option Rival) (earlier changes : List Change) :
    let before := heldRelation estimated
    let held := heldClass before (earlier ++ changes)
    let start := afterwards estimated rival earlier
    let related := changesInTurn changes start
    (∀ front change back, changes = front ++ change :: back →
      ((change.make (changesInTurn front start)).2 = none ↔
        ¬ Blocked estimated rival ∧ some change.object.className = held)) ∧
      (Blocked estimated rival →
        related.relation = start.relation ∧ related.unsaved = rival.map .rival) ∧
      (¬ Blocked estimated rival →
        related.relation = ⟨held, (accepted held changes).foldl Change.members ∅⟩ ∧
          knownOf (heldRelation related.estimated) =
            (accepted held (earlier ++ changes)).foldl Change.members (knownOf before) ∧
          (related.unsaved = none ↔ accepted held (earlier ++ changes) = []) ∧
          ∀ unsaved, related.unsaved = some unsaved → ∃ operation, unsaved = .relation operation ∧
            (applyRelation operation before).toOption = heldRelation related.estimated ∧
              ∃ encoded, encodeRelation platform order operation = .ok encoded ∧
                ((∀ object ∈ operation.relationsToAdd ∪ operation.relationsToRemove,
                  ReadableObject platform object) →
                    decodeRelation platform encoded = .ok operation)) := by
  by_cases blocked : Blocked estimated rival
  · obtain ⟨start, still⟩ := blocked_afterwards estimated rival earlier blocked
    refine ⟨?_, fun _ => ?_, fun free => absurd blocked free⟩
    · rintro front change back -
      have stuck := blocked_inTurn front (afterwards estimated rival earlier) rival start still
      have raises := (make_blocked change _ rival (stuck.2.1.trans start) stuck.2.2).1
      simp [raises, blocked]
    · have stuck := blocked_inTurn changes (afterwards estimated rival earlier) rival start still
      exact ⟨stuck.1, stuck.2.1.trans start⟩
  · obtain ⟨rfl, holdsRelation⟩ := free_start estimated rival blocked
    generalize heldRelation estimated = before at holdsRelation
    subst holdsRelation
    refine ⟨?_, fun stuck => absurd stuck blocked, fun _ => ?_⟩
    · rintro front change back rfl
      simpa [blocked] using raises_iff before earlier front back change
    · rcases changes_kept before earlier changes with
        ⟨classless, rfl, rfl⟩ | ⟨held, holds, kept, relation⟩
      · simp [changesInTurn, accepted, afterwards, Related.again, relationForKey, heldClass,
          classless]
      · simp only [holds]
        refine ⟨relation, ?_⟩
        rcases kept with ⟨nothing, _, estimated, unsaved⟩ | ⟨operation, pending⟩
        · simp [nothing, estimated, unsaved]
        · refine ⟨by rw [pending.estimated]; rfl, by simp [pending.unsaved, pending.made], ?_⟩
          intro sent found
          rw [pending.unsaved, Option.some.injEq] at found
          exact ⟨operation, found.symm, pending_sent platform order before held _ _ operation pending⟩

end CollectionViewWorkshop.RelationChanges
