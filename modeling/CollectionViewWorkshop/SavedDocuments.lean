import CollectionViewWorkshop.SavedObjects

/-!
An object and the document the service holds for it, which nobody else writes.
A save may reach the service and its answer be lost all the same. The object of
a new document has no id then, and the document is never heard of again. What
the service makes of an operation set is a parameter; sets and removals do what
their documentation says.
-/

namespace CollectionViewWorkshop.SavedDocuments

open FieldOperations KeyedWrites ParseObject ParseObjectRuns ParseValues PartialRuns SavedObjects

variable {Value : Type} [FieldValue Value] [DecidableEq Value]

structure Shared (Value : Type) where
  world : World Value
  /-- What the service holds under the object's id, and nothing while it has none. -/
  document : NSDictionary Value
  /-- What the object showed when its last save began. -/
  shownAtSave : NSDictionary Value

abbrev Commit (Value : Type) := PFOperationSet Value → NSDictionary Value → NSDictionary Value

structure Writes (commit : Commit Value) : Prop where
  sets : ∀ changes document key value, changes.lookup key = some (.set value) →
    (commit changes document).lookup key = some value
  deletes : ∀ changes document key, changes.lookup key = some .delete →
    (commit changes document).lookup key = none
  keeps : ∀ changes document key, changes.lookup key = none →
    (commit changes document).lookup key = document.lookup key

/-- A service that knows of sets and removals only. -/
def storeFields (changes : PFOperationSet Value) (document : NSDictionary Value) :
    NSDictionary Value :=
  (writeAll (fun operation stored =>
    (.ok ((overwritesWith operation).getD stored) : Except Raised (Option Value)))
      changes document).1

inductive Exchange (Value : Type) where
  | setObject (value : Option Value) (key : NSString)
  | removeObject (key : NSString)
  | save (childrenDirty : Bool)
  /-- The answer may repeat fields of the document. -/
  | saved (objectId : NSString) (createdAt updatedAt : Option NSString) (named : List NSString)
  | saveFailed (reached : Bool)
  | fetched (updatedAt : Option NSString)

def committed (commit : Commit Value) (shared : Shared Value) : NSDictionary Value :=
  match shared.world.sending with
  | some changes => commit changes shared.document
  | none => shared.document

def fieldsNamed (named : List NSString) (document : NSDictionary Value) : NSDictionary Value :=
  (document.keys.filter (· ∉ named)).foldl (fun fields key => fields.erase key) document

def eventOf (commit : Commit Value) (shared : Shared Value) : Exchange Value → Event Value
  | .setObject value key => .edit (.setObject value) key
  | .removeObject key => .edit .removeObject key
  | .save childrenDirty => .save childrenDirty
  | .saved objectId createdAt updatedAt named =>
      .saved ⟨some objectId, createdAt, updatedAt, fieldsNamed named (committed commit shared)⟩
  | .saveFailed _ => .saveFailed
  | .fetched updatedAt => .fetched ⟨none, none, updatedAt, shared.document⟩

def exchanged (commit : Commit Value) (shared : Shared Value) (world : World Value) :
    Exchange Value → Shared Value
  | .save _ =>
      { shared with
        world := world
        shownAtSave := if world.sending.isSome then shared.world.object.estimatedData
          else shared.shownAtSave }
  | .saved _ _ _ _ => { shared with world := world, document := committed commit shared }
  | .saveFailed reached =>
      { shared with
        world := world
        document := if reached && shared.world.object.objectId.isSome then committed commit shared
          else shared.document }
  | _ => { shared with world := world }

def exchange (commit : Commit Value) (shared : Shared Value) (event : Exchange Value) :
    Option (Shared Value) :=
  (step shared.world (eventOf commit shared event)).map fun world =>
    exchanged commit shared world event

def sharedMachine (commit : Commit Value) : Machine (Shared Value) (Exchange Value) where
  initial := ⟨machine.initial, ∅, ∅⟩
  step := exchange commit

def SendsItself (_ : List (Exchange Value)) (shared : Shared Value) : Exchange Value → Prop
  | .save childrenDirty => childrenDirty = true → isDirty shared.world.object = true
  | _ => True

omit [FieldValue Value] [DecidableEq Value] in
theorem fieldsNamed_lookup (named : List NSString) (document : NSDictionary Value)
    (key : NSString) :
    (fieldsNamed named document).lookup key =
      if key ∈ named then document.lookup key else none := by
  rw [fieldsNamed, lookup_erased]
  simp only [List.mem_filter, ← AList.mem_keys, decide_eq_true_eq]
  by_cases asked : key ∈ named
  · simp [asked]
  · by_cases present : key ∈ document
    · simp [asked, present]
    · simp [asked, present, AList.lookup_eq_none.mpr present]

omit [FieldValue Value] [DecidableEq Value] in
theorem storeFields_lookup (changes : PFOperationSet Value) (document : NSDictionary Value)
    (key : NSString) :
    (storeFields changes document).lookup key =
      ((changes.lookup key).bind overwritesWith).getD (document.lookup key) := by
  have done : (writeAll (fun operation stored =>
      (.ok ((overwritesWith operation).getD stored) : Except Raised (Option Value)))
        changes document).2 = none := by
    apply (writeAll_done_iff _ _ _).mpr
    intro key
    cases changes.lookup key with
    | none => exact ⟨_, rfl⟩
    | some operation => exact ⟨_, rfl⟩
  have spec := writeAll_spec _ changes document done key
  cases found : changes.lookup key with
  | none =>
      rw [found] at spec
      exact (Except.ok.inj spec).symm
  | some operation =>
      rw [found] at spec
      exact (Except.ok.inj spec).symm

omit [FieldValue Value] [DecidableEq Value] in
theorem storeFields_writes : Writes (storeFields : Commit Value) where
  sets := fun changes document key value found => by
    simp [storeFields_lookup, found, overwritesWith]
  deletes := fun changes document key found => by
    simp [storeFields_lookup, found, overwritesWith]
  keeps := fun changes document key found => by simp [storeFields_lookup, found]

theorem childless_sends (commit : Commit Value) (exchanges : List (Exchange Value))
    (childless : ∀ event ∈ exchanges, event ≠ .save true) :
    (sharedMachine commit).EachStep SendsItself exchanges := by
  apply eachStep_of_all
  intro event member before shared
  cases event with
  | save childrenDirty =>
      intro dirty
      exact absurd (dirty ▸ rfl) (childless _ member)
  | _ => trivial

def Untouched (object : PFObject Value) (key : NSString) : Prop :=
  ∀ operationSet ∈ object.operationSetQueue, operationSet.lookup key = none

structure Held (shared : Shared Value) : Prop where
  sound : Sound shared.world
  queue : OverwritingQueue shared.world.object
  /-- The document may be ahead of what was heard of it only where the queue is. -/
  known : ∀ key, Untouched shared.world.object key →
    shared.document.lookup key = shared.world.object.serverData.lookup key
  inFlight : ∀ changes, shared.world.sending = some changes → ∀ key,
    writeAt applyToValue (changes.lookup key) (shared.document.lookup key) =
      .ok (shared.shownAtSave.lookup key)

omit [FieldValue Value] [DecidableEq Value] in
theorem untouched_iff (object : PFObject Value) (key : NSString) :
    Untouched object key ↔
      (∀ operationSet ∈ object.waiting, operationSet.lookup key = none) ∧
        object.unsavedChanges.lookup key = none := by
  simp [Untouched, PFObject.operationSetQueue, or_imp, forall_and]

/-- What a set of overwriting operations leaves at a key is there whatever they are applied to. -/
theorem overwritten (changes : PFOperationSet Value) (overwrites : OverwritesAll changes)
    (key : NSString) (first second result : Option Value)
    (same : changes.lookup key = none → first = second)
    (applied : writeAt applyToValue (changes.lookup key) first = .ok result) :
    writeAt applyToValue (changes.lookup key) second = .ok result := by
  cases found : changes.lookup key with
  | none =>
      rw [found] at applied
      rw [← same found]
      exact applied
  | some operation =>
      obtain ⟨left, leaves, here⟩ := apply_overwriting operation (overwrites key operation found)
        first
      obtain ⟨also, leavesAlso, there⟩ := apply_overwriting operation
        (overwrites key operation found) second
      rw [leaves] at leavesAlso
      cases leavesAlso
      rw [found, writeAt_some, here] at applied
      rw [writeAt_some, there, applied]

theorem commit_applies (commit : Commit Value) (writes : Writes commit)
    (changes : PFOperationSet Value) (overwrites : OverwritesAll changes)
    (document : NSDictionary Value) (key : NSString) :
    writeAt applyToValue (changes.lookup key) (document.lookup key) =
      .ok ((commit changes document).lookup key) := by
  cases found : changes.lookup key with
  | none => rw [writeAt_none, writes.keeps changes document key found]
  | some operation =>
      cases operation with
      | set value =>
          rw [writes.sets changes document key value found]
          rfl
      | delete =>
          rw [writes.deletes changes document key found]
          rfl
      | increment amount => cases overwrites key _ found
      | add objects => cases overwrites key _ found
      | addUnique objects => cases overwrites key _ found
      | remove objects => cases overwrites key _ found

/-- An edit leaves the server's data and the sets in flight alone and takes back no change. -/
theorem edit_frame (change : Edit Value) (key : NSString) (object : PFObject Value) :
    (edit change key object).1.serverData = object.serverData ∧
      (edit change key object).1.waiting = object.waiting ∧
        ∀ other, (edit change key object).1.unsavedChanges.lookup other = none →
          object.unsavedChanges.lookup other = none := by
  refine ⟨?_, (edit_keeps change key object).1, ?_⟩
  · rw [edit_eq]
    split
    · simp only [performOperation]
      split
      · rfl
      · split <;> rfl
    · rfl
  · intro other
    rw [edit_eq]
    split
    · simp only [performOperation]
      split
      · exact id
      · split
        · exact id
        · intro absent
          by_cases same : other = key
          · subst same
            simp at absent
          · rwa [AList.lookup_insert_ne same] at absent
    · exact id

omit [FieldValue Value] [DecidableEq Value] in
theorem eventOf_overwriting (commit : Commit Value) (shared : Shared Value)
    (event : Exchange Value) (sends : SendsItself [] shared event) :
    Overwriting [] shared.world (eventOf commit shared event) := by
  cases event with
  | setObject value key => trivial
  | removeObject key => trivial
  | save childrenDirty => exact sends
  | saved objectId createdAt updatedAt named => trivial
  | saveFailed reached => trivial
  | fetched updatedAt => trivial

theorem edited_held (change : Edit Value) (key : NSString) (shared : Shared Value)
    (held : Held shared) :
    let object := (edit change key shared.world.object).1
    (∀ key, Untouched object key →
        shared.document.lookup key = object.serverData.lookup key) := by
  obtain ⟨server, waiting, fewer⟩ := edit_frame change key shared.world.object
  intro object other untouched
  obtain ⟨earlier, unsaved⟩ := (untouched_iff object other).mp untouched
  have before := (untouched_iff shared.world.object other).mpr
    ⟨waiting ▸ earlier, fewer other unsaved⟩
  simp only [object, server]
  exact held.known other before

theorem begun_held (changes : PFOperationSet Value) (shared : Shared Value) (held : Held shared)
    (idle : shared.world.sending = none) (same : shared.world.object.unsavedChanges = changes)
    (key : NSString) :
    writeAt applyToValue (changes.lookup key) (shared.document.lookup key) =
      .ok (shared.world.object.objectForKey key) := by
  -- the document has what was heard of it, and the changes make the rest
  have waiting : shared.world.object.waiting = [] := by
    rw [held.sound.queued, idle]
    rfl
  obtain ⟨base, nothing, written⟩ := (queue_ok_iff _ key _).mp (held.sound.tracks key)
  rw [waiting] at nothing
  cases nothing
  subst same
  apply overwritten _ held.queue.unsaved key _ _ _ _ written
  intro absent
  exact (held.known key ((untouched_iff _ key).mpr ⟨by simp [waiting], absent⟩)).symm

theorem begun_known (childrenDirty : Bool) (shared : Shared Value) (held : Held shared)
    (key : NSString) (untouched : Untouched (saveAsync childrenDirty shared.world).object key) :
    shared.document.lookup key =
      (saveAsync childrenDirty shared.world).object.serverData.lookup key := by
  simp only [saveAsync] at untouched ⊢
  split
  · rename_i dirty
    -- the changes of the save are in flight now, so a key they are about is touched
    rw [if_pos dirty] at untouched
    apply held.known key
    intro operationSet member
    exact ((untouched_iff _ key).mp untouched).1 operationSet member
  · rename_i clean
    rw [if_neg clean] at untouched
    exact held.known key untouched

theorem begun_changes (childrenDirty : Bool) (shared : Shared Value) (held : Held shared)
    (sends : SendsItself [] shared (.save childrenDirty)) (idle : shared.world.sending = none)
    (changes : PFOperationSet Value)
    (inFlight : (saveAsync childrenDirty shared.world).sending = some changes) :
    shared.world.object.unsavedChanges = changes := by
  have own := isDirty_eq shared.world.object held.sound.undeleted
  cases sendsOwn : sendsItself shared.world.object with
  | true => simpa [saveAsync, own, sendsOwn] using inFlight
  | false =>
      cases childrenDirty with
      | false => simp [saveAsync, own, sendsOwn, idle] at inFlight
      | true => simp [SendsItself, own, sendsOwn] at sends

theorem saved_known (commit : Commit Value) (writes : Writes commit) (shared : Shared Value)
    (held : Held shared) (changes : PFOperationSet Value)
    (sending : shared.world.sending = some changes) (result : ServerResult Value)
    (repeats : ∀ key, result.fields.lookup key = none ∨
      result.fields.lookup key = (committed commit shared).lookup key) (key : NSString)
    (untouched : Untouched (handleSaveResultAsync (some result) shared.world).object key) :
    (committed commit shared).lookup key =
      (handleSaveResultAsync (some result) shared.world).object.serverData.lookup key := by
  have waiting : shared.world.object.waiting = [changes] := by
    rw [held.sound.queued, sending]
    rfl
  have overwrites : OverwritesAll changes := held.queue.waiting changes (by simp [waiting])
  have done := (first_applies changes [] shared.world.object waiting held.sound.tracks).1
  have stored := writeAll_spec applyToValue changes shared.world.object.serverData done key
  have written := commit_applies commit writes changes overwrites shared.document key
  have there : committed commit shared = commit changes shared.document := by
    simp [committed, sending]
  cases applied : applyOperationSet changes shared.world.object.serverData with
  | mk serverData raised =>
      rw [← applyOperationSet, applied] at stored
      rw [applied] at done
      subst done
      obtain ⟨estimatedData, rebuilt⟩ := rebuild_changes
        (mergeFromServerWithResult result
          { shared.world.object with waiting := [], serverData := serverData })
      simp only [handleSaveResultAsync, mergeAfterSaveWithResult, waiting,
        mergeAfterSuccessfulSave, applied, rebuilt] at untouched ⊢
      simp only [mergeFromServerWithResult, lookup_union]
      have unsaved := ((untouched_iff _ key).mp untouched).2
      have same : (commit changes shared.document).lookup key = serverData.lookup key := by
        have also := overwritten changes overwrites key _ (shared.world.object.serverData.lookup key)
          _ (fun absent => held.known key ((untouched_iff _ key).mpr
            ⟨by simpa [waiting] using absent, unsaved⟩)) written
        rw [stored] at also
        exact (Except.ok.inj also).symm
      rcases repeats key with silent | told
      · rw [silent, there, same]
        rfl
      · rw [told, there, same]
        simp

theorem saveFailed_known (commit : Commit Value) (writes : Writes commit)
    (shared : Shared Value) (held : Held shared) (changes : PFOperationSet Value)
    (sending : shared.world.sending = some changes) (document : NSDictionary Value)
    (either : document = shared.document ∨ document = committed commit shared) (key : NSString)
    (untouched : Untouched (handleSaveResultAsync none shared.world).object key) :
    document.lookup key =
      (handleSaveResultAsync none shared.world).object.serverData.lookup key := by
  have waiting : shared.world.object.waiting = [changes] := by
    rw [held.sound.queued, sending]
    rfl
  obtain ⟨merged, merges⟩ := merge_follows changes shared.world.object.unsavedChanges
    held.queue.unsaved
  simp only [handleSaveResultAsync, mergeAfterSaveWithResult, waiting, mergeAfterFailedSave,
    merges] at untouched ⊢
  have absent := ((untouched_iff _ key).mp untouched).2
  rw [mergedSet_lookup _ _ merged merges held.queue.unsaved key, Option.or_eq_none_iff] at absent
  have known := held.known key ((untouched_iff _ key).mpr
    ⟨by simpa [waiting] using absent.2, absent.1⟩)
  rcases either with rfl | rfl
  · exact known
  · simp only [committed, sending]
    rw [writes.keeps changes _ key absent.2, known]

theorem fetched_serverData (result : ServerResult Value) (world : World Value) (key : NSString) :
    (handleFetchResultAsync result world).object.serverData.lookup key =
      result.fields.lookup key := by
  obtain ⟨estimatedData, rebuilt⟩ := rebuild_changes
    (removeOldKeysAfterFetch result (mergeFromServerWithResult result world.object))
  simp only [handleFetchResultAsync, mergeAfterFetchWithResult, rebuilt]
  exact fetched_fields result world.object key

theorem exchange_held (commit : Commit Value) (writes : Writes commit) (event : Exchange Value)
    (before after : Shared Value) (held : Held before) (sends : SendsItself [] before event)
    (taken : exchange commit before event = some after) : Held after := by
  obtain ⟨world, stepped, rfl⟩ := Option.map_eq_some_iff.mp taken
  have allowed := eventOf_overwriting commit before event sends
  have sound := (step_sound_iff _ before.world world held.sound stepped).mpr
    (overwriting_meets before.world _ held.queue allowed)
  have queue := step_overwriting _ before.world world held.sound held.queue allowed stepped
  cases event with
  | setObject value key =>
      cases stepped
      exact ⟨sound, queue, edited_held _ key before held, held.inFlight⟩
  | removeObject key =>
      cases stepped
      exact ⟨sound, queue, edited_held _ key before held, held.inFlight⟩
  | save childrenDirty =>
      cases sending : before.world.sending with
      | some changes => simp [eventOf, step, sending] at stepped
      | none =>
          simp only [eventOf, step, sending, Option.isNone_none, if_true,
            Option.some.injEq] at stepped
          subst stepped
          refine ⟨sound, queue, begun_known childrenDirty before held, ?_⟩
          intro changes inFlight key
          have sent : (saveAsync childrenDirty before.world).sending = some changes := inFlight
          have same := begun_changes childrenDirty before held sends sending changes sent
          simp only [exchanged, sent, Option.isSome_some, if_true]
          exact begun_held changes before held sending same key
  | saved objectId createdAt updatedAt named =>
      cases sending : before.world.sending with
      | none => simp [eventOf, step, sending] at stepped
      | some changes =>
          simp only [eventOf, step, sending, Option.isSome_some, if_true,
            Option.some.injEq] at stepped
          subst stepped
          refine ⟨sound, queue, ?_, fun _ inFlight => by cases inFlight⟩
          apply saved_known commit writes before held changes sending
          intro key
          rw [fieldsNamed_lookup]
          by_cases asked : key ∈ named <;> simp [asked]
  | saveFailed reached =>
      cases sending : before.world.sending with
      | none => simp [eventOf, step, sending] at stepped
      | some changes =>
          simp only [eventOf, step, sending, Option.isSome_some, if_true,
            Option.some.injEq] at stepped
          subst stepped
          refine ⟨sound, queue, ?_, fun _ inFlight => by cases inFlight⟩
          apply saveFailed_known commit writes before held changes sending
          by_cases arrived : reached && before.world.object.objectId.isSome
          · exact Or.inr (by simp [exchanged, arrived])
          · exact Or.inl (by simp [exchanged, arrived])
  | fetched updatedAt =>
      simp only [eventOf, step] at stepped
      split at stepped
      · cases stepped
        refine ⟨sound, queue, ?_, held.inFlight⟩
        intro key _
        simp only [exchanged, fetched_serverData]
      · cases stepped

theorem replay_overwritten (sets : List (PFOperationSet Value))
    (overwrites : ∀ operationSet ∈ sets, OverwritesAll operationSet) (key : NSString)
    (first second result : Option Value)
    (same : (∀ operationSet ∈ sets, operationSet.lookup key = none) → first = second)
    (replayed : replayAt key sets first = .ok result) :
    replayAt key sets second = .ok result := by
  induction sets generalizing first second with
  | nil =>
      rw [← same (by simp)]
      exact replayed
  | cons operationSet rest ih =>
      obtain ⟨middle, written, later⟩ := (replayAt_cons_ok_iff key operationSet rest _ _).mp replayed
      cases found : operationSet.lookup key with
      | none =>
          rw [replayAt_cons_ok_iff, found]
          refine ⟨second, rfl, ih (fun other member => overwrites other (by simp [member])) first
            second ?_ ?_⟩
          · intro absent
            exact same (by simpa [found] using absent)
          · rw [found] at written
            cases written
            exact later
      | some operation =>
          -- from here on the two replays are the same
          have overwritesFirst := overwrites operationSet (by simp)
          exact (replayAt_cons_ok_iff key operationSet rest _ _).mpr
            ⟨middle, overwritten operationSet overwritesFirst key first second middle
              (fun absent => by simp [found] at absent) written, later⟩

theorem held_throughout (commit : Commit Value) (writes : Writes commit)
    (exchanges : List (Exchange Value))
    (sends : (sharedMachine commit).EachStep SendsItself exchanges) :
    (sharedMachine commit).Throughout Held exchanges :=
  throughout_of_eachStep (sharedMachine commit) Held SendsItself
    ⟨initial_sound, ⟨by simp [sharedMachine, machine, objectWithClassName], overwritesAll_empty⟩,
      fun _ _ => rfl, fun _ inFlight => by cases inFlight⟩
    (fun _ event before after held sends taken =>
      exchange_held commit writes event before after held sends taken)
    exchanges sends

/-- In every state an object shows the document with its queued changes made to it,
though answers were lost and the document is ahead of what was heard of it. -/
theorem shows_document (commit : Commit Value) (writes : Writes commit)
    (exchanges : List (Exchange Value)) (shared : Shared Value)
    (run : (sharedMachine commit).Reaches exchanges shared)
    (sends : (sharedMachine commit).EachStep SendsItself exchanges) (key : NSString) :
    replayAt key shared.world.object.operationSetQueue (shared.document.lookup key) =
      .ok (shared.world.object.objectForKey key) := by
  have held := held_throughout commit writes exchanges sends exchanges shared
    (List.prefix_refl _) run
  exact replay_overwritten _ held.queue.all key _ _ _ (fun untouched => (held.known key untouched).symm)
    (held.sound.tracks key)

/-- A save that reached the service while its answer was lost. -/
theorem shows_document_after_lost_answer :
    ∃ shared, (sharedMachine storeFields).Reaches
        [.setObject (some (ParseValue.string "a")) "title", .save false, .saved "s1" none none [],
          .removeObject "title", .save false, .saveFailed true] shared ∧
      replayAt "title" shared.world.object.operationSetQueue (shared.document.lookup "title") =
        .ok (shared.world.object.objectForKey "title") :=
  ⟨_, rfl, shows_document storeFields storeFields_writes
    [.setObject (some (ParseValue.string "a")) "title", .save false, .saved "s1" none none [],
      .removeObject "title", .save false, .saveFailed true]
    _ rfl (childless_sends _ _ (by simp)) "title"⟩

/-- When a save succeeds the document is what the object showed when that save began,
whatever saves failed before and whatever was edited since. -/
theorem saved_as_shown (commit : Commit Value) (writes : Writes commit)
    (exchanges : List (Exchange Value)) (objectId : NSString)
    (createdAt updatedAt : Option NSString) (named : List NSString) (shared : Shared Value)
    (run : (sharedMachine commit).Reaches
      (exchanges ++ [.saved objectId createdAt updatedAt named]) shared)
    (sends : (sharedMachine commit).EachStep SendsItself exchanges) (key : NSString) :
    shared.document.lookup key = shared.shownAtSave.lookup key := by
  obtain ⟨before, reached, taken⟩ := (reaches_snoc_iff _ exchanges _ shared).mp run
  have held := held_throughout commit writes exchanges sends exchanges before
    (List.prefix_refl _) reached
  obtain ⟨world, stepped, rfl⟩ := Option.map_eq_some_iff.mp taken
  cases sending : before.world.sending with
  | none => simp [eventOf, step, sending] at stepped
  | some changes =>
      have waiting : before.world.object.waiting = [changes] := by
        rw [held.sound.queued, sending]
        rfl
      have written := commit_applies commit writes changes
        (held.queue.waiting changes (by simp [waiting])) before.document key
      rw [held.inFlight changes sending key] at written
      simp only [exchanged, committed, sending]
      exact (Except.ok.inj written).symm

/-- The answer of the first save is lost, and the second is overtaken by an edit. -/
theorem saved_as_shown_after_lost_answer :
    ∃ shared, (sharedMachine storeFields).Reaches
        [.setObject (some (ParseValue.string "a")) "title", .save false, .saveFailed true,
          .setObject (some (.string "b")) "title", .save false,
          .setObject (some (.string "c")) "title", .saved "s1" none none []] shared ∧
      shared.document.lookup "title" = shared.shownAtSave.lookup "title" :=
  ⟨_, rfl, saved_as_shown storeFields storeFields_writes
    [.setObject (some (ParseValue.string "a")) "title", .save false, .saveFailed true,
      .setObject (some (.string "b")) "title", .save false,
      .setObject (some (.string "c")) "title"]
    "s1" none none [] _ rfl (childless_sends _ _ (by simp)) "title"⟩

end CollectionViewWorkshop.SavedDocuments
