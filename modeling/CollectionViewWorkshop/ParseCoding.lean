import CollectionViewWorkshop.Base64
import CollectionViewWorkshop.FieldOperations

/-!
`PFEncoder` and `PFDecoder`, with the encoders and decoders that store objects or
send them. What a decoder makes of `__op` dictionaries inside a value, of
relations and of objects with their data is no value of ours. Files, pointers,
dates, local ids and the ids of the offline store come from elsewhere and are
parameters.
-/

namespace CollectionViewWorkshop.ParseCoding

open FieldOperations Numbers ParseValues

/-- A Foundation object as `NSJSONSerialization` takes and gives it. -/
inductive JSON where
  | null
  | number (value : NSNumber)
  | string (text : NSString)
  | array (elements : List JSON)
  | dictionary (entries : List (NSString × JSON))

inductive Undecoded where
  | raised (exception : Raised)
  | malformed
  | noValue
  deriving DecidableEq

inductive PFEncoder where
  | pointerOrLocalId
  | offline (uuid : ObjectReference → NSString)

inductive PFDecoder where
  | objectDecoder
  | knownParseObject (fetchedObjects : NSString → Option ObjectReference)
  | offline (offlineObjects : NSString → Option ObjectReference)

structure Platform where
  encoder : PFEncoder
  decoder : PFDecoder
  preciseStringFromDate : NSDate → NSString
  dateFromString : Option NSString → NSDate
  boolValue : NSString → Bool
  localId : ObjectReference → NSString
  objectWithoutData : NSString → Option NSString → ObjectReference
  objectWithLocalId : NSString → NSString → ObjectReference
  fileWithName : Option NSString → Option NSString → PFFile

variable (platform : Platform)

def encodeParseObject (object : ObjectReference) : JSON :=
  match object.objectId, platform.encoder with
  | some objectId, _ => .dictionary [("__type", .string "Pointer"),
      ("objectId", .string objectId), ("className", .string object.className)]
  | none, .pointerOrLocalId => .dictionary [("__type", .string "Pointer"),
      ("localId", .string (platform.localId object)), ("className", .string object.className)]
  | none, .offline uuid => .dictionary [("__type", .string "OfflineObject"),
      ("uuid", .string (uuid object))]

def encodeAccesses (acl : PFACL) (userId : NSString) : List (NSString × JSON) :=
  (acl.accesses userId).map fun accessType => (accessType, .number ⟨.bool, 1⟩)

def encodeIntoDictionary (acl : PFACL) : List (NSString × JSON) :=
  acl.userIds.map fun userId => (userId, .dictionary (encodeAccesses acl userId))

mutual

def encodeObject : ParseValue → JSON
  | .null => .null
  | .number value => .number value
  | .string text => .string text
  | .data bytes => .dictionary [("__type", .string "Bytes"),
      ("base64", .string (String.ofList (Base64.encode bytes)))]
  | .date date => .dictionary [("__type", .string "Date"),
      ("iso", .string (platform.preciseStringFromDate date))]
  | .geoPoint point => .dictionary [("__type", .string "GeoPoint"),
      ("latitude", .number ⟨.double, point.latitude⟩),
      ("longitude", .number ⟨.double, point.longitude⟩)]
  | .file file =>
      match file.url with
      | none => .dictionary [("__type", .string "File")]
      | some url => .dictionary [("__type", .string "File"), ("url", .string url),
          ("name", .string file.name)]
  | .acl acl => .dictionary (encodeIntoDictionary acl)
  | .object reference => encodeParseObject platform reference
  | .array elements => .array (encodeArray elements)
  | .dictionary entries => .dictionary (encodeEntries entries)

def encodeArray : List ParseValue → List JSON
  | [] => []
  | element :: rest => encodeObject element :: encodeArray rest

def encodeEntries : List (NSString × ParseValue) → List (NSString × JSON)
  | [] => []
  | (key, value) :: rest => (key, encodeObject value) :: encodeEntries rest

end

mutual

/-- A dictionary of an unknown type is left as it is. -/
def JSON.raw : JSON → ParseValue
  | .null => .null
  | .number value => .number value
  | .string text => .string text
  | .array elements => .array (JSON.rawArray elements)
  | .dictionary entries => .dictionary (JSON.rawEntries entries)

def JSON.rawArray : List JSON → List ParseValue
  | [] => []
  | element :: rest => element.raw :: JSON.rawArray rest

def JSON.rawEntries : List (NSString × JSON) → List (NSString × ParseValue)
  | [] => []
  | (key, value) :: rest => (key, value.raw) :: JSON.rawEntries rest

end

def textAt (entries : List (NSString × JSON)) (key : NSString) :
    Except Undecoded (Option NSString) :=
  match entries.lookup key with
  | none => .ok none
  | some (.string text) => .ok (some text)
  | some _ => .error .malformed

def degreesAt (entries : List (NSString × JSON)) (key : NSString) : Except Undecoded ℚ :=
  match entries.lookup key with
  | some (.number value) => .ok (ObjCType.double.read value.value)
  | _ => .error (.raised (.invalidArgument s!"Invalid {key} type passed"))

def decodePointer (className : NSString) (objectId : Option NSString) : ObjectReference :=
  match platform.decoder with
  | .knownParseObject fetchedObjects =>
      (objectId.bind fetchedObjects).getD (platform.objectWithoutData className objectId)
  | _ => platform.objectWithoutData className objectId

/-- What `PFOfflineDecoder` takes before `PFDecoder` does. -/
def PFDecoder.offlineObject (decoder : PFDecoder) (entries : List (NSString × JSON)) :
    Option (Except Undecoded ParseValue) :=
  match decoder, entries.lookup "__type" with
  | .offline offlineObjects, some (.string type) =>
      if type = "OfflineObject" then
        match (textAt entries "uuid").toOption.join.bind offlineObjects with
        | some object => some (.ok (.object object))
        | none => some (.error .noValue)
      else none
  | _, _ => none

def knownTypes : List NSString :=
  ["Date", "Bytes", "GeoPoint", "Relation", "File", "Pointer", "Object"]

def PFDecoder.knownTypes : PFDecoder → List NSString
  | .offline _ => "OfflineObject" :: ParseCoding.knownTypes
  | _ => ParseCoding.knownTypes

def decodeTyped (type : NSString) (entries : List (NSString × JSON)) :
    Except Undecoded ParseValue :=
  if type = "Date" then do
    let iso ← textAt entries "iso"
    return .date (platform.dateFromString iso)
  else if type = "Bytes" then do
    match ← textAt entries "base64" with
    | none => return .data []
    | some text =>
        match Base64.decode text.toList with
        | some bytes => return .data bytes
        | none => throw .malformed
  else if type = "GeoPoint" then do
    let latitude ← degreesAt entries "latitude"
    let longitude ← degreesAt entries "longitude"
    return .geoPoint ⟨latitude, longitude⟩
  else if type = "Relation" then throw .noValue
  else if type = "File" then do
    let name ← textAt entries "name"
    let url ← textAt entries "url"
    return .file (platform.fileWithName name url)
  else if type = "Pointer" then do
    let objectId ← textAt entries "objectId"
    let localId ← textAt entries "localId"
    match ← textAt entries "className" with
    | none => throw .malformed
    | some className =>
        match localId with
        | some localId => return .object (platform.objectWithLocalId className localId)
        | none => return .object (decodePointer platform className objectId)
  else if type = "Object" then throw .noValue
  else return .dictionary (JSON.rawEntries entries)

mutual

def decodeObject : JSON → Except Undecoded ParseValue
  | .null => .ok .null
  | .number value => .ok (.number value)
  | .string text => .ok (.string text)
  | .array elements => (decodeArray elements).map .array
  | .dictionary entries =>
      match platform.decoder.offlineObject entries with
      | some decoded => decoded
      | none =>
          match entries.lookup "__op", entries.lookup "__type" with
          | some _, _ => .error .noValue
          | none, some (.string type) => decodeTyped platform type entries
          | none, some _ => .error .malformed
          | none, none => (decodeEntries entries).map .dictionary

def decodeArray : List JSON → Except Undecoded (List ParseValue)
  | [] => .ok []
  | element :: rest => do
      let value ← decodeObject element
      let values ← decodeArray rest
      return value :: values

def decodeEntries : List (NSString × JSON) → Except Undecoded (List (NSString × ParseValue))
  | [] => .ok []
  | (key, element) :: rest => do
      let value ← decodeObject element
      let values ← decodeEntries rest
      return (key, value) :: values

end

/-! Which values the decoder reads back as they were encoded. -/

mutual

/-- A value that is its own encoding. -/
def Plain : ParseValue → Prop
  | .null => True
  | .number _ => True
  | .string _ => True
  | .array elements => PlainArray elements
  | .dictionary entries => PlainEntries entries
  | _ => False

def PlainArray : List ParseValue → Prop
  | [] => True
  | element :: rest => Plain element ∧ PlainArray rest

def PlainEntries : List (NSString × ParseValue) → Prop
  | [] => True
  | (_, value) :: rest => Plain value ∧ PlainEntries rest

end

/-- The decoder hands out the very object again. -/
def ReadableObject (reference : ObjectReference) : Prop :=
  match reference.objectId, platform.encoder, platform.decoder with
  | some objectId, _, _ =>
      decodePointer platform reference.className (some objectId) = reference
  | none, .pointerOrLocalId, _ =>
      platform.objectWithLocalId reference.className (platform.localId reference) = reference
  | none, .offline uuid, .offline offlineObjects =>
      offlineObjects (uuid reference) = some reference
  | none, .offline _, _ => False

mutual

def Readable : ParseValue → Prop
  | .null => True
  | .number _ => True
  | .string _ => True
  | .data _ => True
  | .date date => platform.dateFromString (some (platform.preciseStringFromDate date)) = date
  | .geoPoint point => ObjCType.double.read point.latitude = point.latitude ∧
      ObjCType.double.read point.longitude = point.longitude
  | .file file => platform.fileWithName (file.url.map fun _ => file.name) file.url = file
  | .acl _ => False
  | .object reference => ReadableObject platform reference
  | .array elements => ReadableArray elements
  | .dictionary entries =>
      match entries.lookup "__op", entries.lookup "__type" with
      | some _, _ => False
      | none, some (.string type) => type ∉ platform.decoder.knownTypes ∧ PlainEntries entries
      | none, some _ => False
      | none, none => ReadableEntries entries

def ReadableArray : List ParseValue → Prop
  | [] => True
  | element :: rest => Readable element ∧ ReadableArray rest

def ReadableEntries : List (NSString × ParseValue) → Prop
  | [] => True
  | (_, value) :: rest => Readable value ∧ ReadableEntries rest

end

theorem lookup_encodeEntries (entries : List (NSString × ParseValue)) (key : NSString) :
    (encodeEntries platform entries).lookup key =
      (entries.lookup key).map (encodeObject platform) := by
  induction entries with
  | nil => rfl
  | cons entry rest ih =>
      obtain ⟨name, value⟩ := entry
      rw [encodeEntries, List.lookup_cons, List.lookup_cons]
      cases key == name
      · exact ih
      · rfl

theorem encode_string_iff (value : ParseValue) (text : NSString) :
    encodeObject platform value = .string text ↔ value = .string text := by
  cases value with
  | file file => cases url : file.url <;> simp [encodeObject, url]
  | object reference =>
      cases objectId : reference.objectId <;> cases encoder : platform.encoder <;>
        simp [encodeObject, encodeParseObject, objectId, encoder]
  | _ => simp [encodeObject]

mutual

theorem raw_encode_iff : ∀ value : ParseValue,
    (encodeObject platform value).raw = value ↔ Plain value
  | .array elements => by
      simp [encodeObject, JSON.raw, Plain, rawArray_encode_iff elements]
  | .dictionary entries => by
      simp [encodeObject, JSON.raw, Plain, rawEntries_encode_iff entries]
  | .null => by simp [encodeObject, JSON.raw, Plain]
  | .number _ => by simp [encodeObject, JSON.raw, Plain]
  | .string _ => by simp [encodeObject, JSON.raw, Plain]
  | .data _ => by simp [encodeObject, JSON.raw, Plain]
  | .date _ => by simp [encodeObject, JSON.raw, Plain]
  | .geoPoint _ => by simp [encodeObject, JSON.raw, Plain]
  | .file file => by
      cases url : file.url <;> simp [encodeObject, url, JSON.raw, Plain]
  | .acl _ => by simp [encodeObject, JSON.raw, Plain]
  | .object reference => by
      cases objectId : reference.objectId <;> cases encoder : platform.encoder <;>
        simp [encodeObject, encodeParseObject, objectId, encoder, JSON.raw, Plain]

theorem rawArray_encode_iff : ∀ elements : List ParseValue,
    JSON.rawArray (encodeArray platform elements) = elements ↔ PlainArray elements
  | [] => by simp [encodeArray, JSON.rawArray, PlainArray]
  | element :: rest => by
      simp [encodeArray, JSON.rawArray, PlainArray, raw_encode_iff element,
        rawArray_encode_iff rest]

theorem rawEntries_encode_iff : ∀ entries : List (NSString × ParseValue),
    JSON.rawEntries (encodeEntries platform entries) = entries ↔ PlainEntries entries
  | [] => by simp [encodeEntries, JSON.rawEntries, PlainEntries]
  | (key, value) :: rest => by
      simp [encodeEntries, JSON.rawEntries, PlainEntries, raw_encode_iff value,
        rawEntries_encode_iff rest]

end

theorem bind_ok_iff {Item Result : Type} (first : Except Undecoded Item)
    (next : Item → Except Undecoded Result) (result : Result) :
    (first >>= next) = .ok result ↔ ∃ item, first = .ok item ∧ next item = .ok result := by
  cases first <;> simp [Bind.bind, Except.bind]

theorem decodeTyped_known (type : NSString) (known : type ∈ knownTypes)
    (entries : List (NSString × JSON)) (same : List (NSString × ParseValue)) :
    decodeTyped platform type entries ≠ .ok (.dictionary same) := by
  intro decoded
  simp only [knownTypes, List.mem_cons, List.not_mem_nil, or_false] at known
  rcases known with rfl | rfl | rfl | rfl | rfl | rfl | rfl
  all_goals simp [-bind_pure_comp, decodeTyped, bind_ok_iff, pure, Except.pure] at decoded
  · obtain ⟨item, -, made⟩ := decoded
    split at made
    · cases made
    · split at made <;> cases made
  · obtain ⟨_, -, _, -, _, -, made⟩ := decoded
    split at made
    · cases made
    · split at made <;> cases made

theorem map_ok_iff {Item Result : Type} (first : Except Undecoded Item) (make : Item → Result)
    (result : Result) :
    first.map make = .ok result ↔ ∃ item, first = .ok item ∧ make item = result := by
  cases first <;> simp [Except.map]

theorem offlineObject_typed (decoder : PFDecoder) (type : NSString)
    (rest : List (NSString × JSON)) (other : type ≠ "OfflineObject") :
    decoder.offlineObject (("__type", .string type) :: rest) = none := by
  cases decoder <;> simp [PFDecoder.offlineObject, other]

theorem offlineObject_untyped (decoder : PFDecoder) (entries : List (NSString × JSON))
    (untyped : ∀ type, entries.lookup "__type" ≠ some (.string type)) :
    decoder.offlineObject entries = none := by
  unfold PFDecoder.offlineObject
  split
  · exact absurd ‹_› (untyped _)
  · rfl

theorem offlineObject_ok (decoder : PFDecoder) (entries : List (NSString × JSON))
    (value : ParseValue) (taken : decoder.offlineObject entries = some (.ok value)) :
    ∃ reference, value = .object reference := by
  unfold PFDecoder.offlineObject at taken
  split at taken
  · split at taken
    · split at taken
      · simp only [Option.some.injEq, Except.ok.injEq] at taken
        exact ⟨_, taken.symm⟩
      · cases taken
    · cases taken
  · cases taken

theorem offlineObject_known (decoder : PFDecoder) (entries : List (NSString × JSON))
    (type : NSString) (typed : entries.lookup "__type" = some (.string type)) :
    (decoder.offlineObject entries = none ∧
      (type ∈ decoder.knownTypes ↔ type ∈ knownTypes)) ∨
    (decoder.offlineObject entries ≠ none ∧ type ∈ decoder.knownTypes) := by
  cases decoder with
  | offline offlineObjects =>
      by_cases offline : type = "OfflineObject"
      · right
        simp only [PFDecoder.offlineObject, typed, offline, if_true, PFDecoder.knownTypes]
        split <;> simp
      · left
        simp [PFDecoder.offlineObject, typed, offline, PFDecoder.knownTypes]
  | _ => exact Or.inl ⟨rfl, Iff.rfl⟩

/-- A dictionary that says it has a type comes back as it is, or as something else. -/
theorem decodeTyped_encode_iff (type : NSString) (entries : List (NSString × ParseValue)) :
    decodeTyped platform type (encodeEntries platform entries) = .ok (.dictionary entries) ↔
      type ∉ knownTypes ∧ PlainEntries entries := by
  by_cases known : type ∈ knownTypes
  · simp [known, decodeTyped_known]
  · have unknown := known
    simp only [knownTypes, List.mem_cons, List.not_mem_nil, or_false, not_or] at unknown
    obtain ⟨date, bytes, point, relation, file, pointer, object⟩ := unknown
    rw [decodeTyped, if_neg date, if_neg bytes, if_neg point, if_neg relation, if_neg file,
      if_neg pointer, if_neg object]
    simp [known, pure, Except.pure, rawEntries_encode_iff]

theorem readable_taken_iff (entries : List (NSString × ParseValue))
    (decoded : Except Undecoded ParseValue)
    (taken : platform.decoder.offlineObject (encodeEntries platform entries) = some decoded) :
    decoded = .ok (.dictionary entries) ↔
      match entries.lookup "__op", entries.lookup "__type" with
      | some _, _ => False
      | none, some (.string type) => type ∉ platform.decoder.knownTypes ∧ PlainEntries entries
      | none, some _ => False
      | none, none => ReadableEntries platform entries := by
  have different : decoded ≠ .ok (.dictionary entries) := by
    rintro rfl
    obtain ⟨reference, same⟩ := offlineObject_ok _ _ _ taken
    cases same
  simp only [different, false_iff]
  have looked := lookup_encodeEntries platform entries "__type"
  cases type : entries.lookup "__type" with
  | none =>
      rw [offlineObject_untyped _ _ (by simp [looked, type])] at taken
      cases taken
  | some value =>
      by_cases text : ∃ name, value = .string name
      · obtain ⟨name, rfl⟩ := text
        have typed : (encodeEntries platform entries).lookup "__type" =
            some (.string name) := by simp [looked, type, encodeObject]
        obtain ⟨missed, -⟩ | ⟨-, known⟩ := offlineObject_known platform.decoder _ name typed
        · rw [missed] at taken
          cases taken
        · cases entries.lookup "__op" <;> simp [known]
      · rw [not_exists] at text
        split <;> simp_all

theorem decodeTyped_ne_acl (type : NSString) (entries : List (NSString × JSON)) (acl : PFACL) :
    decodeTyped platform type entries ≠ .ok (.acl acl) := by
  intro decoded
  unfold decodeTyped at decoded
  split_ifs at decoded
  all_goals simp [-bind_pure_comp, bind_ok_iff, pure, Except.pure] at decoded
  · obtain ⟨item, -, made⟩ := decoded
    split at made
    · cases made
    · split at made <;> cases made
  · obtain ⟨_, -, _, -, _, -, made⟩ := decoded
    split at made
    · cases made
    · split at made <;> cases made

theorem decode_ne_acl (encoded : JSON) (acl : PFACL) :
    decodeObject platform encoded ≠ .ok (.acl acl) := by
  cases encoded with
  | dictionary entries =>
      rw [decodeObject]
      cases taken : platform.decoder.offlineObject entries with
      | some decoded =>
          rintro rfl
          obtain ⟨reference, same⟩ := offlineObject_ok _ _ _ taken
          cases same
      | none =>
          dsimp only
          split <;> simp [map_ok_iff, decodeTyped_ne_acl]
  | _ => simp [decodeObject, map_ok_iff]

theorem decode_encodeParseObject (reference : ObjectReference) :
    decodeObject platform (encodeParseObject platform reference) = .ok (.object reference) ↔
      ReadableObject platform reference := by
  cases objectId : reference.objectId with
  | some objectId =>
      simp [encodeParseObject, objectId, decodeObject, ReadableObject, offlineObject_typed,
        List.lookup_cons, decodeTyped, textAt, pure, Except.pure, Bind.bind, Except.bind]
  | none =>
      cases encoder : platform.encoder with
      | pointerOrLocalId =>
          simp [encodeParseObject, objectId, encoder, decodeObject, ReadableObject,
            offlineObject_typed, List.lookup_cons, decodeTyped, textAt, pure, Except.pure,
            Bind.bind, Except.bind]
      | offline uuid =>
          cases decoder : platform.decoder with
          | offline offlineObjects =>
              cases found : offlineObjects (uuid reference) <;>
                simp [encodeParseObject, objectId, encoder, decodeObject, ReadableObject, decoder,
                  PFDecoder.offlineObject, List.lookup_cons, textAt, Except.toOption, found]
          | _ =>
              simp [encodeParseObject, objectId, encoder, decodeObject, ReadableObject, decoder,
                PFDecoder.offlineObject, List.lookup_cons, decodeTyped, pure, Except.pure]

mutual

theorem decode_encode : ∀ value : ParseValue,
    decodeObject platform (encodeObject platform value) = .ok value ↔ Readable platform value
  | .array elements => by
      simp [encodeObject, decodeObject, Readable, map_ok_iff, decodeArray_encode elements]
  | .dictionary entries => by
      rw [encodeObject, decodeObject, Readable]
      have looked := lookup_encodeEntries platform entries
      cases taken : platform.decoder.offlineObject (encodeEntries platform entries) with
      | some decoded => exact readable_taken_iff platform entries decoded taken
      | none =>
          simp only [looked]
          cases operation : entries.lookup "__op" with
          | some value => simp
          | none =>
              cases type : entries.lookup "__type" with
              | none => simp [map_ok_iff, decodeEntries_encode entries]
              | some value =>
                  by_cases text : ∃ name, value = .string name
                  · obtain ⟨name, rfl⟩ := text
                    have typed : (encodeEntries platform entries).lookup "__type" =
                        some (.string name) := by simp [looked, type, encodeObject]
                    obtain ⟨-, known⟩ | ⟨offline, -⟩ := offlineObject_known platform.decoder _ name typed
                    · simpa [encodeObject, known] using
                        decodeTyped_encode_iff platform name entries
                    · exact absurd taken offline
                  · have nameless : ∀ name, encodeObject platform value ≠ .string name :=
                      fun name same => text ⟨name, (encode_string_iff platform value name).1 same⟩
                    rw [not_exists] at text
                    rw [Option.map_none, Option.map_some]
                    split <;> split <;> simp_all
  | .null => by simp [encodeObject, decodeObject, Readable]
  | .number _ => by simp [encodeObject, decodeObject, Readable]
  | .string _ => by simp [encodeObject, decodeObject, Readable]
  | .data bytes => by
      simp [encodeObject, decodeObject, Readable, offlineObject_typed, List.lookup_cons, decodeTyped, textAt, pure,
        Except.pure, Bind.bind, Except.bind, Base64.decode_encode]
  | .date date => by
      simp [encodeObject, decodeObject, Readable, offlineObject_typed, List.lookup_cons, decodeTyped, textAt, pure,
        Except.pure, Bind.bind, Except.bind]
  | .geoPoint ⟨latitude, longitude⟩ => by
      simp [encodeObject, decodeObject, Readable, offlineObject_typed, List.lookup_cons,
        decodeTyped, degreesAt, pure, Except.pure, Bind.bind, Except.bind]
  | .file file => by
      cases url : file.url <;>
        simp [encodeObject, url, decodeObject, Readable, offlineObject_typed, List.lookup_cons,
          decodeTyped, textAt, pure, Except.pure, Bind.bind, Except.bind]
  | .acl acl => by
      simp [encodeObject, Readable, decode_ne_acl]
  | .object reference => by
      simp [encodeObject, Readable, decode_encodeParseObject]

theorem decodeArray_encode : ∀ elements : List ParseValue,
    decodeArray platform (encodeArray platform elements) = .ok elements ↔
      ReadableArray platform elements
  | [] => by simp [encodeArray, decodeArray, ReadableArray]
  | element :: rest => by
      simp [-bind_pure_comp, encodeArray, decodeArray, ReadableArray, bind_ok_iff,
        pure, Except.pure, decode_encode element, decodeArray_encode rest]

theorem decodeEntries_encode : ∀ entries : List (NSString × ParseValue),
    decodeEntries platform (encodeEntries platform entries) = .ok entries ↔
      ReadableEntries platform entries
  | [] => by simp [encodeEntries, decodeEntries, ReadableEntries]
  | (key, value) :: rest => by
      simp [-bind_pure_comp, encodeEntries, decodeEntries, ReadableEntries, bind_ok_iff,
        pure, Except.pure, decode_encode value, decodeEntries_encode rest]

end

end CollectionViewWorkshop.ParseCoding
