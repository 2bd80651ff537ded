import CollectionViewWorkshop.GraphWalks
import CollectionViewWorkshop.ParseObject

/-!
Looking for what has to be saved with an object: what `collectDirtyChildren:`
finds in the values an object shows, and whether `isDirty:` sees it. An access
list with an unresolved user stands for the current user.
-/

namespace CollectionViewWorkshop.DeepSave

open FieldOperations GraphWalks ParseObject ParseValues Relation

inductive Leaf where
  | object (reference : ObjectReference)
  | file (file : PFFile)
  deriving DecidableEq

/-! The objects and files in a value, in the order they are come by. -/
mutual

def leaves (currentUser : Option ObjectReference) : ParseValue → List Leaf
  | .object reference => [.object reference]
  | .file file => [.file file]
  | .acl acl => if acl.hasUnresolvedUser then currentUser.toList.map .object else []
  | .array elements => elementLeaves currentUser elements
  | .dictionary entries => entryLeaves currentUser entries
  | _ => []

def elementLeaves (currentUser : Option ObjectReference) : List ParseValue → List Leaf
  | [] => []
  | element :: rest => leaves currentUser element ++ elementLeaves currentUser rest

def entryLeaves (currentUser : Option ObjectReference) : List (NSString × ParseValue) → List Leaf
  | [] => []
  | (_, value) :: rest => leaves currentUser value ++ entryLeaves currentUser rest

end

/-- `_estimatedData.dictionaryRepresentation`. -/
def dictionaryRepresentation (object : PFObject ParseValue) : List (NSString × ParseValue) :=
  object.estimatedData.entries.map fun entry => (entry.1, entry.2)

def objectLeaves (currentUser : Option ObjectReference) (object : PFObject ParseValue) :
    List Leaf :=
  entryLeaves currentUser (dictionaryRepresentation object)

/-- The objects in memory; each points to others of them. -/
structure Memory where
  object : ObjectReference → PFObject ParseValue
  currentUser : Option ObjectReference
  known : Finset ObjectReference
  closed : ∀ reference ∈ known, ∀ child,
    .object child ∈ objectLeaves currentUser (object reference) → child ∈ known

def Memory.ofList (currentUser : Option ObjectReference)
    (objects : List (ObjectReference × PFObject ParseValue))
    (closed : ∀ entry ∈ objects, ∀ leaf ∈ objectLeaves currentUser entry.2,
      ∀ child ∈ (match leaf with | .object child => [child] | .file _ => []),
        child ∈ objects.map Prod.fst) : Memory where
  object reference := (objects.lookup reference).getD objectWithClassName
  currentUser := currentUser
  known := (objects.map Prod.fst).toFinset
  closed := by
    intro reference _ child mentioned
    cases found : objects.lookup reference with
    | none =>
        rw [found] at mentioned
        cases mentioned
    | some object =>
        rw [found] at mentioned
        obtain ⟨before, after, split, -⟩ := List.lookup_eq_some_iff.mp found
        have member : (reference, object) ∈ objects := by simp [split]
        exact List.mem_toFinset.mpr
          (closed (reference, object) member (.object child) mentioned child (by simp))

variable (memory : Memory)

def leavesOf (reference : ObjectReference) : List Leaf :=
  objectLeaves memory.currentUser (memory.object reference)

def Mentions (first second : ObjectReference) : Prop :=
  .object second ∈ leavesOf memory first

def isNew (reference : ObjectReference) : Bool :=
  (memory.object reference).objectId.isNone

def dirty (reference : ObjectReference) : Bool :=
  isDirty (memory.object reference)

structure Found where
  dirtyChildren : Finset ObjectReference
  dirtyFiles : Finset PFFile
  deriving DecidableEq

def circularDependency : Raised :=
  .internalInconsistency "Found a circular dependency when saving."

variable (currentUser : Option ObjectReference)
  (visit : ObjectReference → Found → Except Raised Found)

mutual

/-- `collectDirtyChildren:` for a value, given what it does for an object. -/
def collectNode : ParseValue → Found → Except Raised Found
  | .array elements, found => collectElements elements found
  | .dictionary entries, found => collectEntries entries found
  | .acl acl, found =>
      match currentUser with
      | some user => if acl.hasUnresolvedUser then visit user found else .ok found
      | none => .ok found
  | .object reference, found => visit reference found
  | .file file, found =>
      .ok (if file.url.isNone then { found with dirtyFiles := insert file found.dirtyFiles }
        else found)
  | _, found => .ok found

def collectElements : List ParseValue → Found → Except Raised Found
  | [], found => .ok found
  | element :: rest, found =>
      match collectNode element found with
      | .error raised => .error raised
      | .ok found => collectElements rest found

def collectEntries : List (NSString × ParseValue) → Found → Except Raised Found
  | [], found => .ok found
  | (_, value) :: rest, found =>
      match collectNode value found with
      | .error raised => .error raised
      | .ok found => collectEntries rest found

end

def addIfDirty (memory : Memory) (object : ObjectReference) (found : Found) : Found :=
  if dirty memory object then
    { found with dirtyChildren := insert object found.dirtyChildren }
  else found

/-- `seen` and `seenNew` are those of the way here; the depth bounds how many
objects may still be seen. -/
def collectObject (memory : Memory) : ℕ → Finset ObjectReference → Finset ObjectReference →
    ObjectReference → Found → Except Raised Found
  | 0, _, _, _, found => .ok found
  | depth + 1, seen, seenNew, object, found =>
      if isNew memory object && object ∈ seenNew then .error circularDependency
      else if object ∈ seen then .ok found
      else
        let seenNew := if isNew memory object then insert object seenNew else ∅
        (collectEntries memory.currentUser
          (collectObject memory depth (insert object seen) seenNew)
          (dictionaryRepresentation (memory.object object)) found).map (addIfDirty memory object)

def collectDirtyChildren (memory : Memory) (child : ObjectReference) : Except Raised Found :=
  collectObject memory (memory.known.card + 1) ∅ ∅ child ⟨∅, ∅⟩

def collectLeaf (found : Found) : Leaf → Except Raised Found
  | .object reference => visit reference found
  | .file file =>
      .ok (if file.url.isNone then { found with dirtyFiles := insert file found.dirtyFiles }
        else found)

def collectLeaves (found : Found) : List Leaf → Except Raised Found
  | [] => .ok found
  | leaf :: rest =>
      match collectLeaf visit found leaf with
      | .error raised => .error raised
      | .ok found => collectLeaves found rest

theorem collectLeaves_append (found : Found) (first second : List Leaf) :
    collectLeaves visit found (first ++ second) =
      match collectLeaves visit found first with
      | .error raised => .error raised
      | .ok found => collectLeaves visit found second := by
  induction first generalizing found with
  | nil => rfl
  | cons leaf rest ih =>
      rw [List.cons_append, collectLeaves, collectLeaves]
      cases collectLeaf visit found leaf with
      | error raised => rfl
      | ok later => exact ih later

mutual

theorem collectNode_eq : ∀ (value : ParseValue) (found : Found),
    collectNode currentUser visit value found =
      collectLeaves visit found (leaves currentUser value)
  | .array elements, found => by
      rw [collectNode, leaves, collectElements_eq elements found]
  | .dictionary entries, found => by
      rw [collectNode, leaves, collectEntries_eq entries found]
  | .acl acl, found => by
      cases currentUser with
      | none => simp [collectNode, leaves, collectLeaves]
      | some user =>
          cases unresolved : acl.hasUnresolvedUser with
          | false => simp [collectNode, leaves, collectLeaves, unresolved]
          | true =>
              simp only [collectNode, leaves, unresolved, if_true, Option.toList_some,
                List.map_cons, List.map_nil, collectLeaves, collectLeaf]
              cases visit user found <;> rfl
  | .object reference, found => by
      simp only [collectNode, leaves, collectLeaves, collectLeaf]
      cases visit reference found <;> rfl
  | .file file, found => rfl
  | .null, found => rfl
  | .number value, found => rfl
  | .string text, found => rfl
  | .data bytes, found => rfl
  | .date date, found => rfl
  | .geoPoint point, found => rfl

theorem collectElements_eq : ∀ (elements : List ParseValue) (found : Found),
    collectElements currentUser visit elements found =
      collectLeaves visit found (elementLeaves currentUser elements)
  | [], found => rfl
  | element :: rest, found => by
      rw [collectElements, elementLeaves, collectLeaves_append, collectNode_eq element found]
      cases collectLeaves visit found (leaves currentUser element) with
      | error raised => rfl
      | ok later => exact collectElements_eq rest later

theorem collectEntries_eq : ∀ (entries : List (NSString × ParseValue)) (found : Found),
    collectEntries currentUser visit entries found =
      collectLeaves visit found (entryLeaves currentUser entries)
  | [], found => rfl
  | (_, value) :: rest, found => by
      rw [collectEntries, entryLeaves, collectLeaves_append, collectNode_eq value found]
      cases collectLeaves visit found (leaves currentUser value) with
      | error raised => rfl
      | ok later => exact collectEntries_eq rest later

end

abbrev New (reference : ObjectReference) : Prop := isNew memory reference = true

/-- The walk from one of the objects among some leaves gets to `other`. -/
def Gets (seen : Finset ObjectReference) (leaves : List Leaf) (other : ObjectReference) : Prop :=
  ∃ reference, .object reference ∈ leaves ∧ Visits (Mentions memory) seen reference other

def Circular (seen seenNew : Finset ObjectReference) (leaves : List Leaf) : Prop :=
  ∃ reference, .object reference ∈ leaves ∧
    Loops (Mentions memory) (New memory) seen seenNew reference

/-- What collecting from some leaves adds, and when it raises instead. -/
def Collects (seen seenNew : Finset ObjectReference) (leaves : List Leaf) (found : Found) :
    Except Raised Found → Prop
  | .error raised => raised = circularDependency ∧ Circular memory seen seenNew leaves
  | .ok after =>
      ¬ Circular memory seen seenNew leaves ∧
        (∀ other, other ∈ after.dirtyChildren ↔ other ∈ found.dirtyChildren ∨
          (dirty memory other = true ∧ Gets memory seen leaves other)) ∧
        ∀ file, file ∈ after.dirtyFiles ↔ file ∈ found.dirtyFiles ∨
          (file.url = none ∧ (.file file ∈ leaves ∨
            ∃ other, Gets memory seen leaves other ∧
              .file file ∈ leavesOf memory other))

variable {memory}

theorem collects_cons (seen seenNew : Finset ObjectReference) (leaf : Leaf) (rest : List Leaf)
    (found middle : Found) (result : Except Raised Found)
    (first : Collects memory seen seenNew [leaf] found (.ok middle))
    (later : Collects memory seen seenNew rest middle result) :
    Collects memory seen seenNew (leaf :: rest) found result := by
  obtain ⟨straight, children, files⟩ := first
  have splitCircular : Circular memory seen seenNew (leaf :: rest) ↔
      Circular memory seen seenNew [leaf] ∨ Circular memory seen seenNew rest := by
    simp only [Circular, List.mem_cons, List.not_mem_nil, or_false, or_and_right, exists_or]
  have splitGets : ∀ other, Gets memory seen (leaf :: rest) other ↔
      Gets memory seen [leaf] other ∨ Gets memory seen rest other := by
    intro other
    simp only [Gets, List.mem_cons, List.not_mem_nil, or_false, or_and_right, exists_or]
  cases result with
  | error raised =>
      obtain ⟨same, circular⟩ := later
      exact ⟨same, splitCircular.mpr (Or.inr circular)⟩
  | ok after =>
      obtain ⟨straightRest, childrenRest, filesRest⟩ := later
      refine ⟨?_, ?_, ?_⟩
      · rw [splitCircular, not_or]
        exact ⟨straight, straightRest⟩
      · intro other
        rw [childrenRest, children, splitGets, and_or_left, or_assoc]
      · intro file
        rw [filesRest, files]
        simp only [splitGets, List.mem_cons, List.not_mem_nil, or_false, or_and_right, exists_or]
        rw [or_assoc, ← and_or_left, or_or_or_comm]

theorem collects_leaves (visit : ObjectReference → Found → Except Raised Found)
    (seen seenNew : Finset ObjectReference) (all : List Leaf) (found : Found)
    (visits : ∀ reference found, .object reference ∈ all →
      Collects memory seen seenNew [.object reference] found (visit reference found)) :
    Collects memory seen seenNew all found (collectLeaves visit found all) := by
  induction all generalizing found with
  | nil =>
      refine ⟨?_, ?_, ?_⟩ <;> simp [Circular, Gets]
  | cons leaf rest ih =>
      have later := fun found => ih found fun reference found member =>
        visits reference found (List.mem_cons_of_mem leaf member)
      have one : Collects memory seen seenNew [leaf] found (collectLeaf visit found leaf) := by
        cases leaf with
        | object reference => exact visits reference found (by simp)
        | file file =>
            refine ⟨?_, ?_, ?_⟩
            · simp [Circular]
            · intro other
              by_cases unsaved : file.url.isNone <;> simp [unsaved, Gets]
            · intro other
              simp only [Gets, List.mem_singleton, reduceCtorEq, false_and, exists_false,
                or_false, Leaf.file.injEq]
              by_cases unsaved : file.url.isNone
              · rw [if_pos unsaved, Finset.mem_insert, or_comm]
                apply or_congr_right
                constructor
                · rintro rfl
                  exact ⟨Option.isNone_iff_eq_none.mp unsaved, rfl⟩
                · exact And.right
              · rw [if_neg unsaved]
                constructor
                · exact Or.inl
                · rintro (old | ⟨none_, rfl⟩)
                  · exact old
                  · exact absurd (Option.isNone_iff_eq_none.mpr none_) unsaved
      rw [collectLeaves]
      cases result : collectLeaf visit found leaf with
      | error raised =>
          rw [result] at one
          obtain ⟨same, reference, member, loops⟩ := one
          exact ⟨same, reference, by simp_all, loops⟩
      | ok middle =>
          rw [result] at one
          exact collects_cons seen seenNew leaf rest found middle _ one (later middle)

/-- What an object adds is what its leaves add and, if it is dirty, itself. -/
theorem collects_object (seen seenNew : Finset ObjectReference) (object : ObjectReference)
    (unseen : object ∉ seen) (unchained : ¬ (New memory object ∧ object ∈ seenNew))
    (found : Found) (below : Except Raised Found)
    (collected : Collects memory (insert object seen)
      (chainAfter (New memory) seenNew object) (leavesOf memory object) found below) :
    Collects memory seen seenNew [.object object] found (below.map (addIfDirty memory object)) := by
  have circular : Circular memory seen seenNew [.object object] ↔
      Circular memory (insert object seen) (chainAfter (New memory) seenNew object)
        (leavesOf memory object) := by
    simp only [Circular, List.mem_singleton, Leaf.object.injEq, exists_eq_left]
    rw [loops_first_iff]
    simp only [unchained, false_or, unseen, not_false_iff, true_and]
    rfl
  have gets : ∀ other, Gets memory seen [.object object] other ↔
      other = object ∨ Gets memory (insert object seen) (leavesOf memory object) other := by
    intro other
    simp only [Gets, List.mem_singleton, Leaf.object.injEq, exists_eq_left]
    rw [visits_first_iff]
    simp only [unseen, not_false_iff, true_and]
    rfl
  cases below with
  | error raised => exact ⟨collected.1, circular.mpr collected.2⟩
  | ok after =>
      obtain ⟨straight, children, files⟩ := collected
      refine ⟨fun loops => straight (circular.mp loops), ?_, ?_⟩
      · intro other
        have old := children other
        rw [gets other]
        by_cases same : other = object
        · subst same
          by_cases changed : dirty memory other <;> simp [addIfDirty, changed, old]
        · by_cases changed : dirty memory object <;> simp [addIfDirty, changed, old, same]
      · intro file
        have kept : (addIfDirty memory object after).dirtyFiles = after.dirtyFiles := by
          rw [addIfDirty]
          split <;> rfl
        rw [kept, files file]
        simp only [gets, or_and_right, exists_or, exists_eq_left, List.mem_singleton,
          reduceCtorEq, false_or]

/-- Enough depth for the objects not seen yet collects all a walk gets to. -/
theorem collectObject_spec (depth : ℕ) (seen seenNew : Finset ObjectReference)
    (object : ObjectReference) (found : Found) (inside : object ∈ memory.known)
    (enough : (memory.known \ seen).card < depth) :
    Collects memory seen seenNew [.object object] found
      (collectObject memory depth seen seenNew object found) := by
  induction depth generalizing seen seenNew object found with
  | zero => omega
  | succ depth ih =>
      rw [collectObject]
      by_cases again : isNew memory object = true ∧ object ∈ seenNew
      · rw [if_pos (by simpa using again)]
        exact ⟨rfl, object, by simp, Loops.here seen seenNew object again.1 again.2⟩
      · rw [if_neg (by simpa using again)]
        by_cases visited : object ∈ seen
        · rw [if_pos visited]
          have stops : ∀ other, ¬ Gets memory seen [.object object] other := by
            rintro other ⟨reference, member, visits⟩
            cases List.mem_singleton.mp member
            exact ((visits_first_iff seen object other).mp visits).1 visited
          refine ⟨?_, ?_, ?_⟩
          · rintro ⟨reference, member, loops⟩
            cases List.mem_singleton.mp member
            rcases (loops_first_iff seen seenNew object).mp loops with here | ⟨off, -⟩
            · exact again here
            · exact off visited
          · intro other
            simp [stops]
          · intro file
            simp [stops]
        · rw [if_neg visited]
          have fewer : (memory.known \ insert object seen).card < depth := by
            have subset : memory.known \ insert object seen ⊂ memory.known \ seen := by
              rw [Finset.ssubset_iff_of_subset (Finset.sdiff_subset_sdiff (Finset.Subset.refl _)
                (Finset.subset_insert object seen))]
              exact ⟨object, by simp [inside, visited], by simp⟩
            have := Finset.card_lt_card subset
            omega
          apply collects_object seen seenNew object visited again found
          rw [collectEntries_eq]
          apply collects_leaves
          intro child found member
          exact ih (insert object seen) _ child found (memory.closed object inside child member)
            fewer

theorem collected (object : ObjectReference) (inside : object ∈ memory.known) :
    Collects memory ∅ ∅ [.object object] ⟨∅, ∅⟩ (collectDirtyChildren memory object) :=
  collectObject_spec (memory.known.card + 1) ∅ ∅ object ⟨∅, ∅⟩ inside (by simp)

theorem circular_iff (object : ObjectReference) :
    Circular memory ∅ ∅ [.object object] ↔
      ∃ other, ReflTransGen (Mentions memory) object other ∧
        OnCycle (Mentions memory) (New memory) other := by
  simp only [Circular, List.mem_singleton, Leaf.object.injEq, exists_eq_left]
  exact loops_iff object

theorem gets_iff (object other : ObjectReference) :
    Gets memory ∅ [.object object] other ↔ ReflTransGen (Mentions memory) object other := by
  simp only [Gets, List.mem_singleton, Leaf.object.injEq, exists_eq_left]
  exact visits_iff object other

theorem collect_raises_iff (object : ObjectReference) (inside : object ∈ memory.known)
    (raised : Raised) :
    collectDirtyChildren memory object = .error raised ↔
      raised = circularDependency ∧ ∃ other, ReflTransGen (Mentions memory) object other ∧
        OnCycle (Mentions memory) (New memory) other := by
  have spec := collected object inside
  rw [← circular_iff]
  cases result : collectDirtyChildren memory object with
  | error actual =>
      rw [result] at spec
      constructor
      · rintro same
        cases same
        exact spec
      · rintro ⟨rfl, -⟩
        rw [spec.1]
  | ok found =>
      rw [result] at spec
      simp [spec.1]

/-- It collects the dirty objects and the unsaved files in all that can be reached. -/
theorem collect_spec (object : ObjectReference) (inside : object ∈ memory.known) (found : Found)
    (ok : collectDirtyChildren memory object = .ok found) :
    (∀ other, other ∈ found.dirtyChildren ↔
      ReflTransGen (Mentions memory) object other ∧ dirty memory other = true) ∧
      ∀ file, file ∈ found.dirtyFiles ↔ file.url = none ∧
        ∃ other, ReflTransGen (Mentions memory) object other ∧
          .file file ∈ leavesOf memory other := by
  have spec := collected object inside
  rw [ok] at spec
  obtain ⟨-, children, files⟩ := spec
  constructor
  · intro other
    rw [children, gets_iff]
    simp [and_comm]
  · intro file
    rw [files]
    simp [gets_iff]

/-! Whether a save has anything to do. -/

def anyChildDirty (visit : ObjectReference → Finset ObjectReference → Bool × Finset ObjectReference) :
    List (NSString × ParseValue) → Finset ObjectReference → Bool × Finset ObjectReference
  | [], seenObjects => (false, seenObjects)
  | (_, .object child) :: rest, seenObjects =>
      match visit child seenObjects with
      | (true, seenObjects) => (true, seenObjects)
      | (false, seenObjects) => anyChildDirty visit rest seenObjects
  -- an array or a dictionary is not looked into
  | _ :: rest, seenObjects => anyChildDirty visit rest seenObjects

def areChildrenDirty (memory : Memory) : ℕ → ObjectReference → Finset ObjectReference →
    Bool × Finset ObjectReference
  | 0, _, seenObjects => (false, seenObjects)
  | depth + 1, object, seenObjects =>
      if object ∈ seenObjects then (false, seenObjects)
      else if dirty memory object then (true, insert object seenObjects)
      else anyChildDirty (areChildrenDirty memory depth)
        (dictionaryRepresentation (memory.object object)) (insert object seenObjects)

/-- `isDirty:YES`. -/
def isDirtyWithChildren (memory : Memory) (object : ObjectReference) : Bool :=
  dirty memory object || (areChildrenDirty memory (memory.known.card + 1) object ∅).1

variable (memory)

def fieldObjects (object : ObjectReference) : List ObjectReference :=
  (dictionaryRepresentation (memory.object object)).filterMap fun entry =>
    match entry.2 with
    | .object child => some child
    | _ => none

theorem anyChildDirty_eq
    (visit : ObjectReference → Finset ObjectReference → Bool × Finset ObjectReference)
    (entries : List (NSString × ParseValue)) (seenObjects : Finset ObjectReference) :
    anyChildDirty visit entries seenObjects =
      searchAll visit (entries.filterMap fun entry =>
        match entry.2 with
        | .object child => some child
        | _ => none) seenObjects := by
  induction entries generalizing seenObjects with
  | nil => rfl
  | cons entry rest ih =>
      obtain ⟨key, value⟩ := entry
      cases value with
      | object child =>
          simp only [anyChildDirty, List.filterMap_cons, searchAll]
          cases visit child seenObjects with
          | mk stopped after =>
              cases stopped with
              | true => rfl
              | false => exact ih after
      | _ => exact ih seenObjects

theorem areChildrenDirty_eq (depth : ℕ) (object : ObjectReference)
    (seenObjects : Finset ObjectReference) :
    areChildrenDirty memory depth object seenObjects =
      search (fieldObjects memory) (dirty memory) depth object seenObjects := by
  induction depth generalizing object seenObjects with
  | zero => rfl
  | succ depth ih =>
      have same : areChildrenDirty memory depth =
          search (fieldObjects memory) (dirty memory) depth := by
        funext child seen
        exact ih child seen
      rw [areChildrenDirty, search, same, anyChildDirty_eq]
      rfl

theorem mentions_of_field (object child : ObjectReference)
    (field : child ∈ fieldObjects memory object) : Mentions memory object child := by
  obtain ⟨⟨key, value⟩, member, found⟩ := List.mem_filterMap.mp field
  cases value with
  | object reference =>
      cases found
      rw [Mentions, leavesOf, objectLeaves]
      generalize dictionaryRepresentation (memory.object object) = entries at member
      induction entries with
      | nil => cases member
      | cons entry rest ih =>
          rcases List.mem_cons.mp member with rfl | later
          · simp [entryLeaves, leaves]
          · exact List.mem_append_right _ (ih later)
  | _ => cases found

/-- A save has something to do exactly if a dirty object can be reached through fields
that hold an object. -/
theorem isDirtyWithChildren_iff (object : ObjectReference) (inside : object ∈ memory.known) :
    isDirtyWithChildren memory object = true ↔
      ∃ other, ReflTransGen (Child (fieldObjects memory)) object other ∧
        dirty memory other = true := by
  have closed : ∀ reference ∈ memory.known, ∀ child ∈ fieldObjects memory reference,
      child ∈ memory.known := fun reference inside child field =>
    memory.closed reference inside child (mentions_of_field memory reference child field)
  have searched := search_iff (fieldObjects memory) (dirty memory) memory.known closed object
    inside
  rw [isDirtyWithChildren, Bool.or_eq_true, areChildrenDirty_eq, searched]
  constructor
  · rintro (own | below)
    · exact ⟨object, ReflTransGen.refl, own⟩
    · exact below
  · exact Or.inr

/-- A saved room, and a speaker of it that has changed. -/
def room : ObjectReference := ⟨"Room", some "r1", 1⟩

def speaker : ObjectReference := ⟨"Speaker", some "s1", 2⟩

def roomFields (value : ParseValue) : PFObject ParseValue :=
  { objectWithClassName with
    objectId := some "r1"
    dirty := false
    estimatedData := KeyedWrites.put "speakers" (some value) ∅ }

def speakerFields (rooms : List ParseValue) : PFObject ParseValue :=
  (setObjectForKey (some (.array rooms)) "rooms"
    { objectWithClassName with objectId := some "s1", dirty := false }).1

theorem isDirtyWithChildren_speaker :
    let memory := Memory.ofList none
      [(room, roomFields (.object speaker)), (speaker, speakerFields [])] (by decide)
    isDirtyWithChildren memory room = true ↔
      ∃ other, ReflTransGen (Child (fieldObjects memory)) room other ∧
        dirty memory other = true :=
  isDirtyWithChildren_iff _ room (by decide)

/-- The speaker in an array is not seen, though it would be collected. -/
example :
    let memory := Memory.ofList none
      [(room, roomFields (.array [.object speaker])), (speaker, speakerFields [])] (by decide)
    isDirtyWithChildren memory room = false ∧
      collectDirtyChildren memory room = .ok ⟨{speaker}, ∅⟩ := by
  decide

end CollectionViewWorkshop.DeepSave
