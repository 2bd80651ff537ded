import CollectionViewWorkshop.PhotoStream
import CollectionViewWorkshop.SavedDocuments

/-!
A stream item on its way through the SDK: the `PFObject` the encoder makes of it
with its unsaved changes, the document a save makes of these, and the object a
query makes of the document. The photo stream is modelled over the fields of
such an object alone, and what it uploads and decodes is what comes of the
document here. An answer may hold more fields than the document, and numbers of
another type.
-/

namespace CollectionViewWorkshop.StoredPhotos

open FieldOperations KeyedWrites ObjectiveC ParseObject ParseObjectRuns ParseValues
  SavedDocuments SavedObjects
open PhotoStream (ItemRef Upload uploadStreamItem)
open StreamItemTransformer (CGFloat PFValue StreamItem floatValue streamItemDataKey
  streamItemHeightKey streamItemTitleKey streamItemWidthKey)

/-- A `CGFloat` in a number is a double. -/
def storedValue : PFValue → ParseValue
  | .data bytes => .data bytes
  | .string text => .string text
  | .number value => .number ⟨.double, value⟩

def setting (value : Option PFValue) (key : NSString) (object : PFObject ParseValue) :
    Except Raised (PFObject ParseValue) :=
  match setObjectForKey (value.map storedValue) key object with
  | (object, none) => .ok object
  | (_, some raised) => .error raised

/-- `parseObjectFromStreamItem:` with the `PFObject` itself. -/
def parseObjectFromStreamItem : Option StreamItem → Except Raised (PFObject ParseValue)
  | none => .error (.invalidArgument "Class name can't be 'nil'.")
  | some streamItem => do
      let withData ← setting (streamItem.data.map .data) streamItemDataKey objectWithClassName
      let withTitle ← setting (streamItem.title.map .string) streamItemTitleKey withData
      let withWidth ← setting (some (.number streamItem.size.width)) streamItemWidthKey withTitle
      setting (some (.number streamItem.size.height)) streamItemHeightKey withWidth

def objectWithoutData (objectId : Option NSString) : PFObject ParseValue :=
  { objectWithClassName with
    objectId := objectId
    dirty := false }

/-- `_objectFromDictionary:` with complete data, once for each result of a query. -/
def objectFromDictionary (result : ServerResult ParseValue) :
    PFObject ParseValue × Option Raised :=
  mergeAfterFetchWithResult result (objectWithoutData result.objectId)

def readValue : ParseValue → Option PFValue
  | .data bytes => some (.data bytes)
  | .string text => some (.string text)
  | .number number => some (.number number.value)
  | _ => none

def streamItemFromParseObject (parseObject : PFObject ParseValue) : StreamItem :=
  let field := fun key => (parseObject.objectForKey key).bind readValue
  { title := (field streamItemTitleKey).bind PFValue.asString
    data := (field streamItemDataKey).bind PFValue.asData
    size := ⟨floatValue (field streamItemWidthKey), floatValue (field streamItemHeightKey)⟩ }

/-- The answer gives every field of the document back. -/
def Repeats (document : NSDictionary ParseValue) (result : ServerResult ParseValue) : Prop :=
  ∀ key value, document.lookup key = some value →
    ∃ answered, result.fields.lookup key = some answered ∧ readValue answered = readValue value

/-- The object shows what was encoded and is going to send it. -/
structure StandsFor (object : PFObject ParseValue)
    (encoded : StreamItemTransformer.PFObject) : Prop where
  shows : ∀ key, object.objectForKey key = (encoded.objectForKey key).map storedValue
  changes : ∀ key, object.unsavedChanges.lookup key =
    (encoded.objectForKey key).map fun value => .set (storedValue value)
  dirty : object.dirty = true

/-- Both return, or both raise for the same reason. -/
def Simulates : Except NSException StreamItemTransformer.PFObject →
    Except Raised (PFObject ParseValue) → Prop
  | .ok encoded, .ok object => StandsFor object encoded
  | .error (.invalidArgument reason), .error raised => raised = .invalidArgument reason
  | _, _ => False

theorem encoded_lookup (encoded : StreamItemTransformer.PFObject) (value : PFValue)
    (key other : NSString) :
    (encoded.entries.filter (fun entry => entry.1 != key) ++ [(key, value)]).lookup other =
      if other = key then some value else encoded.entries.lookup other := by
  induction encoded.entries with
  | nil =>
      by_cases same : other = key
      · simp [same]
      · simp [same, List.lookup_cons, beq_false_of_ne same]
  | cons entry rest ih =>
      obtain ⟨name, stored⟩ := entry
      by_cases replaced : name = key
      · subst replaced
        by_cases same : other = name
        · simpa [same] using ih
        · simpa [same, List.lookup_cons, beq_false_of_ne same] using ih
      · by_cases here : other = name
        · subst here
          simp [replaced]
        · simpa [replaced, List.lookup_cons, beq_false_of_ne here] using ih

theorem setting_simulates (object : PFObject ParseValue)
    (encoded : StreamItemTransformer.PFObject) (stands : StandsFor object encoded)
    (value : Option PFValue) (key : NSString) :
    Simulates (encoded.setObjectForKey value key) (setting value key object) := by
  cases value with
  | none => rfl
  | some value =>
      have merges : mergeWithPrevious (.set (storedValue value))
          (object.unsavedChanges.lookup key) = .ok (.set (storedValue value)) := by
        cases object.unsavedChanges.lookup key <;> rfl
      simp only [setting, Option.map_some, setObjectForKey, performOperation, applyToValue, merges,
        StreamItemTransformer.PFObject.setObjectForKey]
      refine ⟨fun other => ?_, fun other => ?_, stands.dirty⟩
      · have shown := stands.shows other
        simp only [StreamItemTransformer.PFObject.objectForKey, encoded_lookup,
          ParseObject.PFObject.objectForKey] at shown ⊢
        by_cases same : other = key
        · subst same
          simp
        · rw [if_neg same, lookup_put_of_ne _ _ _ _ same, shown]
      · have changed := stands.changes other
        simp only [StreamItemTransformer.PFObject.objectForKey, encoded_lookup] at changed ⊢
        by_cases same : other = key
        · subst same
          simp
        · rw [if_neg same, AList.lookup_insert_ne same, changed]

theorem simulates_bind (first : Except NSException StreamItemTransformer.PFObject)
    (second : Except Raised (PFObject ParseValue))
    (encode : StreamItemTransformer.PFObject → Except NSException StreamItemTransformer.PFObject)
    (make : PFObject ParseValue → Except Raised (PFObject ParseValue))
    (simulates : Simulates first second)
    (next : ∀ object encoded, StandsFor object encoded → Simulates (encode encoded) (make object)) :
    Simulates (first >>= encode) (second >>= make) := by
  cases first with
  | ok encoded =>
      cases second with
      | ok object => exact next object encoded simulates
      | error raised => cases simulates
  | error exception =>
      obtain ⟨reason⟩ := exception
      cases second with
      | ok object => cases simulates
      | error raised => exact simulates

/-- The encoder does to the object what it does to the fields of one. -/
theorem parseObject_simulates (streamItem : Option StreamItem) :
    Simulates (StreamItemTransformer.parseObjectFromStreamItem streamItem)
      (parseObjectFromStreamItem streamItem) := by
  cases streamItem with
  | none => rfl
  | some streamItem =>
      have start : StandsFor objectWithClassName ⟨StreamItem.className, []⟩ :=
        ⟨fun _ => rfl, fun _ => rfl, rfl⟩
      rw [StreamItemTransformer.parseObjectFromStreamItem, Option.map_some,
        StreamItemTransformer.objectWithClassName_streamItem]
      apply simulates_bind _ _ _ _ (setting_simulates _ _ start _ _)
      intro withData encodedData standsData
      apply simulates_bind _ _ _ _ (setting_simulates _ _ standsData _ _)
      intro withTitle encodedTitle standsTitle
      apply simulates_bind _ _ _ _ (setting_simulates _ _ standsTitle _ _)
      intro withWidth encodedWidth standsWidth
      exact setting_simulates _ _ standsWidth _ _

theorem found_shows (result : ServerResult ParseValue) (key : NSString) :
    (objectFromDictionary result).1.objectForKey key = result.fields.lookup key := by
  have queue : ∀ key, replayAt key
      (removeOldKeysAfterFetch result (mergeFromServerWithResult result
        (objectWithoutData result.objectId))).operationSetQueue
      ((removeOldKeysAfterFetch result (mergeFromServerWithResult result
        (objectWithoutData result.objectId))).serverData.lookup key) =
      .ok (result.fields.lookup key) := by
    intro key
    rw [fetched_fields]
    rfl
  have tracks := (rebuild_tracks_iff _).mpr (fun key => ⟨_, queue key⟩) key
  obtain ⟨estimatedData, rebuilt⟩ := rebuild_changes
    (removeOldKeysAfterFetch result (mergeFromServerWithResult result
      (objectWithoutData result.objectId)))
  rw [rebuilt] at tracks
  rw [objectFromDictionary, mergeAfterFetchWithResult, rebuilt]
  exact Except.ok.inj (tracks.symm.trans (queue key))

theorem stored_fields (commit : Commit ParseValue) (writes : Writes commit)
    (object : PFObject ParseValue) (encoded : StreamItemTransformer.PFObject)
    (stands : StandsFor object encoded) (key : NSString) :
    (commit object.unsavedChanges ∅).lookup key = (encoded.objectForKey key).map storedValue := by
  have changes := stands.changes key
  cases found : encoded.objectForKey key with
  | none =>
      rw [found] at changes
      rw [writes.keeps _ _ key changes]
      rfl
  | some value =>
      rw [found] at changes
      exact writes.sets _ _ key _ changes

@[simp] theorem readValue_storedValue (value : PFValue) :
    readValue (storedValue value) = some value := by
  cases value <;> rfl

theorem decoded_answer (encoded : StreamItemTransformer.PFObject)
    (document : NSDictionary ParseValue) (result : ServerResult ParseValue)
    (holds : ∀ key, document.lookup key = (encoded.objectForKey key).map storedValue)
    (complete : ∀ key ∈ [streamItemDataKey, streamItemTitleKey, streamItemWidthKey,
      streamItemHeightKey], (encoded.objectForKey key).isSome)
    (repeats : Repeats document result) :
    streamItemFromParseObject (objectFromDictionary result).1 =
      StreamItemTransformer.streamItemFromParseObject encoded := by
  have field : ∀ key ∈ [streamItemDataKey, streamItemTitleKey, streamItemWidthKey,
      streamItemHeightKey], ((objectFromDictionary result).1.objectForKey key).bind readValue =
        encoded.objectForKey key := by
    intro key named
    obtain ⟨value, found⟩ := Option.isSome_iff_exists.mp (complete key named)
    obtain ⟨answered, given, same⟩ := repeats key (storedValue value) (by rw [holds, found]; rfl)
    rw [found_shows, given, Option.bind_some, same, readValue_storedValue, found]
  rw [streamItemFromParseObject, StreamItemTransformer.streamItemFromParseObject]
  simp only [field streamItemDataKey (by simp), field streamItemTitleKey (by simp),
    field streamItemWidthKey (by simp), field streamItemHeightKey (by simp)]

theorem encoded_field_iff (data : NSData) (title : NSString) (size : CoreGraphics.CGSize CGFloat)
    (key : NSString) (value : ParseValue) :
    ((StreamItemTransformer.encoded data title size).objectForKey key).map storedValue =
        some value ↔
      (key, value) ∈ [(streamItemDataKey, ParseValue.data data),
        (streamItemTitleKey, .string title), (streamItemWidthKey, .number ⟨.double, size.width⟩),
        (streamItemHeightKey, .number ⟨.double, size.height⟩)] := by
  obtain ⟨dataField, titleField, widthField, heightField⟩ :=
    StreamItemTransformer.objectForKey_encoded data title size
  have named : streamItemDataKey ≠ streamItemTitleKey ∧ streamItemDataKey ≠ streamItemWidthKey ∧
      streamItemDataKey ≠ streamItemHeightKey ∧ streamItemTitleKey ≠ streamItemWidthKey ∧
      streamItemTitleKey ≠ streamItemHeightKey ∧ streamItemWidthKey ≠ streamItemHeightKey := by
    decide
  by_cases known : key ∈ [streamItemDataKey, streamItemTitleKey, streamItemWidthKey,
      streamItemHeightKey]
  · simp only [List.mem_cons, List.not_mem_nil, or_false] at known
    rcases known with rfl | rfl | rfl | rfl
    · simp [dataField, named, storedValue, eq_comm]
    · simp [titleField, named, named.1.symm, storedValue, eq_comm]
    · simp [widthField, named, named.2.1.symm, named.2.2.2.1.symm, storedValue, eq_comm]
    · simp [heightField, named.2.2.1.symm, named.2.2.2.2.1.symm, named.2.2.2.2.2.symm,
        storedValue, eq_comm]
  · simp only [List.mem_cons, List.not_mem_nil, or_false, not_or] at known
    obtain ⟨data_, title_, width, height⟩ := known
    simp [StreamItemTransformer.encoded, StreamItemTransformer.PFObject.objectForKey,
      List.lookup_cons, beq_false_of_ne data_, beq_false_of_ne title_, beq_false_of_ne width,
      beq_false_of_ne height, data_, title_, width, height]

/-- The upload of a stream item raises exactly when the encoder does. Otherwise its save
makes a document of the item's data, title, width and height alone, and whatever answer
repeats this document, the item decoded from it is the one the photo stream decodes. -/
theorem uploaded_photo (commit : Commit ParseValue) (writes : Writes commit)
    (streamItem : Option ItemRef) (world : PhotoStream.World) :
    (∀ raised, parseObjectFromStreamItem (streamItem.map ItemRef.item) = .error raised →
      ∃ exception, uploadStreamItem streamItem world = .raised exception world) ∧
    ∀ object, parseObjectFromStreamItem (streamItem.map ItemRef.item) = .ok object →
      ∃ item data title size upload changes,
        streamItem = some item ∧ item.item = ⟨some data, some title, size⟩ ∧
        uploadStreamItem streamItem world =
          .returned { world with uploads := world.uploads ++ [upload] } ∧
        (saveAsync false ⟨object, none, none⟩).sending = some changes ∧
        (∀ key value, (commit changes ∅).lookup key = some value ↔
          (key, value) ∈ [(streamItemDataKey, .data data), (streamItemTitleKey, .string title),
            (streamItemWidthKey, .number ⟨.double, size.width⟩),
            (streamItemHeightKey, .number ⟨.double, size.height⟩)]) ∧
        ∀ result, Repeats (commit changes ∅) result →
          streamItemFromParseObject (objectFromDictionary result).1 =
            StreamItemTransformer.streamItemFromParseObject upload.object := by
  have simulates := parseObject_simulates (streamItem.map ItemRef.item)
  cases encodes : StreamItemTransformer.parseObjectFromStreamItem
      (streamItem.map ItemRef.item) with
  | error exception =>
      have raises : uploadStreamItem streamItem world = .raised exception world := by
        rw [uploadStreamItem, encodes]
      refine ⟨fun raised _ => ⟨exception, raises⟩, fun object made => ?_⟩
      rw [encodes, made] at simulates
      exact simulates.elim
  | ok encoded =>
      rw [encodes] at simulates
      refine ⟨fun raised made => ?_, fun object made => ?_⟩
      · rw [made] at simulates
        exact simulates.elim
      rw [made] at simulates
      obtain ⟨data, title, size, given, rfl⟩ :=
        (StreamItemTransformer.parseObject_ok_iff _ encoded).mp encodes
      obtain ⟨item, rfl, whole⟩ := Option.map_eq_some_iff.mp given
      have fields := StreamItemTransformer.objectForKey_encoded data title size
      have holds := stored_fields commit writes object _ simulates
      have sends : isDirty object = true ∧ sendsItself object = true := by
        simp [isDirty, sendsItself, simulates.dirty]
      refine ⟨item, data, title, size,
        ⟨item, StreamItemTransformer.encoded data title size, false, none⟩,
        object.unsavedChanges, rfl, whole, ?_, by simp [saveAsync, sends], ?_, ?_⟩
      · rw [uploadStreamItem, encodes]
        rfl
      · intro key value
        rw [holds, encoded_field_iff]
      · intro result repeats
        exact decoded_answer _ _ result holds (by simp [fields]) repeats

theorem uploaded_photo_titled :
    let item : StreamItem := ⟨some [255], some "a", ⟨2, 1⟩⟩
    ∃ object changes, parseObjectFromStreamItem (some item) = .ok object ∧
      (saveAsync false ⟨object, none, none⟩).sending = some changes ∧
        ∀ key value, (storeFields changes ∅).lookup key = some value ↔
          (key, value) ∈ [(streamItemDataKey, ParseValue.data [255]),
            (streamItemTitleKey, .string "a"), (streamItemWidthKey, .number ⟨.double, 2⟩),
            (streamItemHeightKey, .number ⟨.double, 1⟩)] := by
  intro item
  obtain ⟨found, data, title, size, upload, changes, same, whole, -, sends, holds, -⟩ :=
    (uploaded_photo storeFields storeFields_writes (some ⟨.created 0, item⟩)
      ⟨⟨none, false⟩, [], [], .empty, 0, [], none, 0⟩).2 _ rfl
  cases same
  cases whole
  exact ⟨_, changes, rfl, sends, holds⟩

end CollectionViewWorkshop.StoredPhotos
