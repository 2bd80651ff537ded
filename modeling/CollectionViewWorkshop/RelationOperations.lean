import CollectionViewWorkshop.FieldOperations
import Mathlib.Data.Finset.Lattice.Lemmas
import Mathlib.Data.Finset.SDiff

/-!
`PFRelationOperation`, which merges into itself in a way its source calls messed
up, and what it makes of the members a `PFRelation` knows of. A relation is a
mutable object that the estimated data and the server data may share; here it
is a value.
-/

namespace CollectionViewWorkshop.RelationOperations

open FieldOperations ParseValues

structure PFRelationOperation where
  targetClass : Option NSString
  relationsToAdd : Finset ObjectReference
  relationsToRemove : Finset ObjectReference
  deriving DecidableEq

structure PFRelation where
  targetClass : Option NSString
  knownObjects : Finset ObjectReference
  deriving DecidableEq

def otherClass : Raised :=
  .invalidArgument "All objects in a relation must be of the same class."

def relatedClass (wanted : Option NSString) (passed : Option NSString) : Raised :=
  .invalidArgument (String.join ["Related object object must be of class ",
    wanted.getD "(null)", ", but ", passed.getD "(null)", " was passed in"])

def addRelationToObjects (targets : List ObjectReference) :
    Except Raised PFRelationOperation :=
  let targetClass := targets.head?.map ObjectReference.className
  if ∀ target ∈ targets, some target.className = targetClass then
    .ok ⟨targetClass, targets.toFinset, ∅⟩
  else .error otherClass

def removeRelationToObjects (targets : List ObjectReference) :
    Except Raised PFRelationOperation :=
  let targetClass := targets.head?.map ObjectReference.className
  if ∀ target ∈ targets, some target.className = targetClass then
    .ok ⟨targetClass, ∅, targets.toFinset⟩
  else .error otherClass

def toAdd (objects : Finset ObjectReference) (operation : PFRelationOperation) :
    PFRelationOperation :=
  { operation with
    relationsToRemove := operation.relationsToRemove \ objects
    relationsToAdd := operation.relationsToAdd ∪ objects }

-- the source takes the object out of the set it then puts it into
def toRemove (objects : Finset ObjectReference) (operation : PFRelationOperation) :
    PFRelationOperation :=
  { operation with
    relationsToRemove := operation.relationsToRemove \ objects ∪ objects }

/-- `[previous.targetClass isEqualToString:targetClass]`, where nil equals nothing. -/
def sameClass (first second : Option NSString) : Prop :=
  first.isSome ∧ first = second

instance (first second : Option NSString) : Decidable (sameClass first second) :=
  inferInstanceAs (Decidable (_ ∧ _))

def mergeRelation (operation previous : PFRelationOperation) :
    Except Raised PFRelationOperation :=
  if previous.targetClass = none ∨ sameClass previous.targetClass operation.targetClass then
    .ok (toRemove operation.relationsToRemove (toAdd operation.relationsToAdd
      (toRemove previous.relationsToRemove (toAdd previous.relationsToAdd
        ⟨operation.targetClass, ∅, ∅⟩))))
  else .error (relatedClass previous.targetClass operation.targetClass)

def applyRelation (operation : PFRelationOperation) (oldValue : Option PFRelation) :
    Except Raised PFRelation :=
  let relation := oldValue.getD ⟨operation.targetClass, ∅⟩
  if operation.targetClass = none ∨ relation.targetClass = none ∨
      sameClass relation.targetClass operation.targetClass then
    .ok ⟨relation.targetClass.or operation.targetClass,
      (relation.knownObjects ∪ operation.relationsToAdd) \ operation.relationsToRemove⟩
  else .error (relatedClass relation.targetClass operation.targetClass)

theorem mergeRelation_ok_iff (operation previous merged : PFRelationOperation) :
    mergeRelation operation previous = .ok merged ↔
      (previous.targetClass = none ∨ previous.targetClass = operation.targetClass) ∧
        merged = ⟨operation.targetClass, previous.relationsToAdd ∪ operation.relationsToAdd,
          previous.relationsToRemove \ operation.relationsToAdd ∪
            operation.relationsToRemove⟩ := by
  have classes : previous.targetClass = none ∨
      sameClass previous.targetClass operation.targetClass ↔
        previous.targetClass = none ∨ previous.targetClass = operation.targetClass := by
    cases found : previous.targetClass <;> simp [sameClass]
  simp only [mergeRelation, classes, toAdd, toRemove, Finset.empty_union, Finset.empty_sdiff,
    Finset.sdiff_union_self_eq_union]
  by_cases fits : previous.targetClass = none ∨ previous.targetClass = operation.targetClass
  · rw [if_pos fits]
    simp only [fits, true_and, Except.ok.injEq]
    exact eq_comm
  · simp [fits]

theorem applyRelation_ok_iff (operation : PFRelationOperation) (oldValue : Option PFRelation)
    (relation : PFRelation) :
    applyRelation operation oldValue = .ok relation ↔
      let old := oldValue.getD ⟨operation.targetClass, ∅⟩
      (operation.targetClass = none ∨ old.targetClass = none ∨
          old.targetClass = operation.targetClass) ∧
        relation = ⟨old.targetClass.or operation.targetClass,
          (old.knownObjects ∪ operation.relationsToAdd) \ operation.relationsToRemove⟩ := by
  simp only [applyRelation]
  generalize oldValue.getD ⟨operation.targetClass, ∅⟩ = old
  have classes : operation.targetClass = none ∨ old.targetClass = none ∨
      sameClass old.targetClass operation.targetClass ↔
        operation.targetClass = none ∨ old.targetClass = none ∨
          old.targetClass = operation.targetClass := by
    cases found : old.targetClass <;> simp [sameClass]
  simp only [classes]
  by_cases fits : operation.targetClass = none ∨ old.targetClass = none ∨
      old.targetClass = operation.targetClass
  · rw [if_pos fits]
    simp only [fits, true_and, Except.ok.injEq]
    exact eq_comm
  · simp [fits]

theorem known_merged (known addEarlier removeEarlier addLater removeLater :
    Finset ObjectReference) :
    (known ∪ (addEarlier ∪ addLater)) \ (removeEarlier \ addLater ∪ removeLater) =
      ((known ∪ addEarlier) \ removeEarlier ∪ addLater) \ removeLater := by
  ext object
  simp only [Finset.mem_sdiff, Finset.mem_union]
  tauto

theorem merged_relations (operation previous merged : PFRelationOperation)
    (oldValue : Option PFRelation) (middle result : PFRelation)
    (merges : mergeRelation operation previous = .ok merged)
    (applied : applyRelation previous oldValue = .ok middle) :
    applyRelation merged oldValue = .ok result ↔
      applyRelation operation (some middle) = .ok result := by
  -- the merged operation takes out what was removed before and not added since
  obtain ⟨classes, rfl⟩ := (mergeRelation_ok_iff operation previous merged).mp merges
  obtain ⟨fits, rfl⟩ := (applyRelation_ok_iff previous oldValue middle).mp applied
  simp only [applyRelation_ok_iff, Option.getD_some]
  cases oldValue with
  | none =>
      simp only [Option.getD_none, ← known_merged]
      cases later : operation.targetClass <;> cases earlier : previous.targetClass <;>
        simp_all
  | some old =>
      simp only [Option.getD_some, known_merged] at fits ⊢
      cases later : operation.targetClass <;> cases earlier : previous.targetClass <;>
        cases class_ : old.targetClass <;> simp_all

def mergeInTurn (first : PFRelationOperation) (later : List PFRelationOperation) :
    Except Raised PFRelationOperation :=
  later.foldlM (fun previous operation => mergeRelation operation previous) first

def applyInTurn (operations : List PFRelationOperation) (oldValue : Option PFRelation) :
    Except Raised (Option PFRelation) :=
  operations.foldlM (fun value operation => (applyRelation operation value).map some) oldValue

/-- Any number of relation operations merged into one leaves the members they
leave in turn. -/
theorem merged_relations_in_turn (first merged : PFRelationOperation)
    (later : List PFRelationOperation) (oldValue : Option PFRelation) (result : PFRelation)
    (merges : mergeInTurn first later = .ok merged)
    (applied : applyInTurn (first :: later) oldValue = .ok (some result)) :
    applyRelation merged oldValue = .ok result := by
  induction later generalizing first with
  | nil =>
      cases merges
      cases turn : applyRelation merged oldValue with
      | error raised => simp [applyInTurn, turn, Except.map, bind, Except.bind] at applied
      | ok relation =>
          simpa [applyInTurn, turn, Except.map, bind, Except.bind, pure, Except.pure]
            using applied
  | cons operation rest ih =>
      cases step : mergeRelation operation first with
      | error raised => simp [mergeInTurn, step, bind, Except.bind] at merges
      | ok both =>
          cases turn : applyRelation first oldValue with
          | error raised => simp [applyInTurn, turn, Except.map, bind, Except.bind] at applied
          | ok middle =>
              cases next : applyRelation operation (some middle) with
              | error raised =>
                  simp [applyInTurn, turn, next, Except.map, bind, Except.bind] at applied
              | ok relation =>
                  -- the first two operations act as the one they merge into
                  have merge := (merged_relations operation first both oldValue middle relation
                    step turn).mpr next
                  apply ih both
                  · simpa [mergeInTurn, step, bind, Except.bind] using merges
                  · simpa [applyInTurn, turn, next, merge, Except.map, bind, Except.bind]
                      using applied

/-- A member added, removed and added again. -/
theorem merged_relations_in_turn_added_again :
    let speaker : ObjectReference := ⟨"Speaker", some "s1", 1⟩
    applyRelation ⟨some "Speaker", {speaker}, ∅⟩ none = .ok ⟨some "Speaker", {speaker}⟩ :=
  merged_relations_in_turn ⟨some "Speaker", {⟨"Speaker", some "s1", 1⟩}, ∅⟩
    ⟨some "Speaker", {⟨"Speaker", some "s1", 1⟩}, ∅⟩
    [⟨some "Speaker", ∅, {⟨"Speaker", some "s1", 1⟩}⟩,
      ⟨some "Speaker", {⟨"Speaker", some "s1", 1⟩}, ∅⟩]
    none ⟨some "Speaker", {⟨"Speaker", some "s1", 1⟩}⟩ rfl rfl

end CollectionViewWorkshop.RelationOperations
