import CollectionViewWorkshop.ParseCoding
import CollectionViewWorkshop.ParseObject

/-!
How `PFOperationSet` is written to a store and read back. The identifier, the
date and the flag of a set stand among its fields, under keys of their own, and
what stands under the key of the access list is read as one. A batch and the
operations of a relation are left out.
-/

namespace CollectionViewWorkshop.StoredOperations

open FieldOperations KeyedLists KeyedWrites Numbers ParseCoding ParseObject ParseValues

variable (platform : Platform)

def encodeOperation : PFFieldOperation ParseValue → JSON
  | .set value => encodeObject platform value
  | .delete => .dictionary [("__op", .string "Delete")]
  | .increment amount => .dictionary [("__op", .string "Increment"), ("amount", .number amount)]
  | .add objects => .dictionary [("__op", .string "Add"),
      ("objects", .array (encodeArray platform objects))]
  | .addUnique objects => .dictionary [("__op", .string "AddUnique"),
      ("objects", .array (encodeArray platform objects))]
  | .remove objects => .dictionary [("__op", .string "Remove"),
      ("objects", .array (encodeArray platform objects))]

def decodeObjects (encoded : List (NSString × JSON)) : Except Undecoded (List ParseValue) :=
  match encoded.lookup "objects" with
  | some (.array elements) => decodeArray platform elements
  | _ => .error .malformed

def decodeOperation (operationName : NSString) (encoded : List (NSString × JSON)) :
    Except Undecoded (PFFieldOperation ParseValue) :=
  if operationName = "Delete" then .ok .delete
  else if operationName = "Increment" then
    match encoded.lookup "amount" with
    | some (.number amount) => .ok (.increment amount)
    | _ => .error .malformed
  else if operationName = "Add" then (decodeObjects platform encoded).map .add
  else if operationName = "AddUnique" then
    (decodeObjects platform encoded).map addUniqueWithObjects
  else if operationName = "Remove" then (decodeObjects platform encoded).map .remove
  else if operationName ∈ ["Batch", "AddRelation", "RemoveRelation"] then .error .noValue
  else .error (.raised (.internalInconsistency
    s!"Unable to decode operation of type {operationName}."))

def readOperation (field : JSON) : Except Undecoded (PFFieldOperation ParseValue) :=
  match field with
  | .dictionary entries =>
      match platform.decoder.offlineObject entries, entries.lookup "__op" with
      | none, some (.string operationName) => decodeOperation platform operationName entries
      | none, some _ => .error .malformed
      | _, _ => (decodeObject platform field).map .set
  | _ => (decodeObject platform field).map .set

def boolValue : JSON → Except Undecoded Bool
  | .number number => .ok (number.value ≠ 0)
  | .string text => .ok (platform.boolValue text)
  | _ => .error .malformed

def setAccesses (userId : NSString) : List (NSString × JSON) → PFACL → Except Undecoded PFACL
  | [], acl => .ok acl
  | (accessType, object) :: rest, acl => do
      let allowed ← boolValue platform object
      setAccesses userId rest (acl.setAccess accessType allowed userId)

def setPermissions : List (NSString × JSON) → PFACL → Except Undecoded PFACL
  | [], acl => .ok acl
  | (userId, .dictionary permissions) :: rest, acl => do
      let granted ← setAccesses platform userId permissions acl
      setPermissions rest granted
  | _ :: _, _ => .error .malformed

def aclWithDictionary : JSON → Except Undecoded PFACL
  | .dictionary dictionary => setPermissions platform dictionary .empty
  | _ => .error .malformed

/-- Under the key of the access list the field is decoded, and then read once more. -/
def operationOf (key : NSString) (field : JSON) :
    Except Undecoded (PFFieldOperation ParseValue) :=
  if key = "ACL" then do
    let _ ← decodeObject platform field
    let acl ← aclWithDictionary platform field
    return .set (.acl acl)
  else readOperation platform field

def ReadableOperation : PFFieldOperation ParseValue → Prop
  | .set value => Readable platform value
  | .delete => True
  | .increment _ => True
  | .add objects => ReadableArray platform objects
  | .addUnique objects =>
      ReadableArray platform objects ∧ DistinctKeys ParseValue.essence objects
  | .remove objects => ReadableArray platform objects

/-- The keys by which a dictionary says what it is. -/
def typeKeys : List NSString := ["__op", "__type"]

/-- An access list comes back when it is settled and no name in it says what it is not. -/
def ReadableACL : PFFieldOperation ParseValue → Prop
  | .set (.acl acl) => acl.shared = false ∧ acl.unresolvedUser = none ∧
      ∀ permission ∈ acl.permissions, permission.1 ∉ typeKeys ∧ permission.2 ∉ typeKeys
  | _ => False

def ReadableField (key : NSString) (operation : PFFieldOperation ParseValue) : Prop :=
  if key = "ACL" then ReadableACL operation else ReadableOperation platform operation

theorem decodeOperation_ne_set (operationName : NSString) (encoded : List (NSString × JSON))
    (value : ParseValue) : decodeOperation platform operationName encoded ≠ .ok (.set value) := by
  unfold decodeOperation
  split_ifs
  · simp
  · split <;> simp
  all_goals simp [map_ok_iff, addUniqueWithObjects]

theorem readOperation_set_iff (field : JSON) (value : ParseValue) :
    readOperation platform field = .ok (.set value) ↔ decodeObject platform field = .ok value := by
  cases field with
  | dictionary entries =>
      cases offline : platform.decoder.offlineObject entries with
      | some decoded => simp [readOperation, offline, map_ok_iff]
      | none =>
          cases operation : entries.lookup "__op" with
          | none => simp [readOperation, offline, operation, map_ok_iff]
          | some name =>
              -- an operation is no value, whether it can be read or not
              have noValue : decodeObject platform (.dictionary entries) ≠ .ok value := by
                simp [decodeObject, offline, operation]
              cases name <;>
                simp [readOperation, offline, operation, decodeOperation_ne_set, noValue]
  | _ => simp [readOperation, map_ok_iff]

theorem decodeArray_length (elements : List JSON) (objects : List ParseValue)
    (decoded : decodeArray platform elements = .ok objects) :
    objects.length = elements.length := by
  induction elements generalizing objects with
  | nil =>
      cases decoded
      rfl
  | cons element rest ih =>
      simp only [decodeArray, bind_ok_iff, pure, Except.pure, Except.ok.injEq] at decoded
      obtain ⟨value, -, values, later, rfl⟩ := decoded
      rw [List.length_cons, List.length_cons, ih values later]

theorem encodeArray_length (objects : List ParseValue) :
    (encodeArray platform objects).length = objects.length := by
  induction objects with
  | nil => rfl
  | cons object rest ih => rw [encodeArray, List.length_cons, List.length_cons, ih]

/-- A set made of the objects read back is as long as they are, so it lost none. -/
theorem decodeUnique_iff (objects : List ParseValue) :
    (∃ read, decodeArray platform (encodeArray platform objects) = .ok read ∧
      FieldValue.allObjects read = objects) ↔
    ReadableArray platform objects ∧ DistinctKeys ParseValue.essence objects := by
  constructor
  · rintro ⟨read, decoded, unique⟩
    have distinct : DistinctKeys ParseValue.essence objects :=
      unique ▸ FieldValue.distinct_allObjects read
    have length : read.length = objects.length := by
      rw [decodeArray_length platform _ read decoded, encodeArray_length]
    have inside : objects ⊆ read := unique ▸ FieldValue.allObjects_subset read
    have reordered : objects.Perm read :=
      (distinct.nodup.subperm inside).perm_of_length_le length.le
    have same : read = objects :=
      (enterAll_nil read (distinct.perm reordered.symm)).symm.trans unique
    exact ⟨(decodeArray_encode platform objects).mp (same ▸ decoded), distinct⟩
  · rintro ⟨readable, distinct⟩
    exact ⟨objects, (decodeArray_encode platform objects).mpr readable,
      enterAll_nil objects distinct⟩

theorem readOperation_encode_iff (operation : PFFieldOperation ParseValue) :
    readOperation platform (encodeOperation platform operation) = .ok operation ↔
      ReadableOperation platform operation := by
  have operator : ∀ name key rest, "__type" ≠ key → platform.decoder.offlineObject
      [("__op", .string name), (key, rest)] = none :=
    fun name key rest other => offlineObject_untyped _ _ (by
      simp [List.lookup_cons, beq_false_of_ne other])
  cases operation with
  | set value =>
      rw [encodeOperation, readOperation_set_iff, decode_encode]
      rfl
  | delete =>
      have operator : platform.decoder.offlineObject [("__op", .string "Delete")] = none :=
        offlineObject_untyped _ _ (by simp [List.lookup_cons])
      simp [encodeOperation, readOperation, decodeOperation, ReadableOperation, operator]
  | increment amount =>
      simp [encodeOperation, readOperation, decodeOperation, ReadableOperation, operator,
        List.lookup_cons]
  | add objects =>
      simp [encodeOperation, readOperation, decodeOperation, decodeObjects, ReadableOperation,
        operator, List.lookup_cons, map_ok_iff, decodeArray_encode]
  | addUnique objects =>
      simp [encodeOperation, readOperation, decodeOperation, decodeObjects, ReadableOperation,
        operator, List.lookup_cons, map_ok_iff, addUniqueWithObjects, decodeUnique_iff]
  | remove objects =>
      simp [encodeOperation, readOperation, decodeOperation, decodeObjects, ReadableOperation,
        operator, List.lookup_cons, map_ok_iff, decodeArray_encode]

theorem lookup_keyed (keys : List NSString) (encode : NSString → JSON) (key : NSString) :
    (keys.map fun key => (key, encode key)).lookup key =
      if key ∈ keys then some (encode key) else none := by
  induction keys with
  | nil => rfl
  | cons first rest ih =>
      rw [List.map_cons, List.lookup_cons]
      by_cases same : key = first
      · simp [same]
      · simp [same, beq_false_of_ne same, ih]

theorem decodeEntries_ok_iff (entries : List (NSString × JSON)) :
    (∃ values, decodeEntries platform entries = .ok values) ↔
      ∀ entry ∈ entries, ∃ value, decodeObject platform entry.2 = .ok value := by
  induction entries with
  | nil => simp [decodeEntries]
  | cons entry rest ih =>
      simp only [decodeEntries, bind_ok_iff, pure, Except.pure, Except.ok.injEq, List.forall_mem_cons, ← ih]
      constructor
      · rintro ⟨_, value, first, values, others, -⟩
        exact ⟨⟨value, first⟩, values, others⟩
      · rintro ⟨⟨value, first⟩, values, others⟩
        exact ⟨_, value, first, values, others, rfl⟩

theorem decode_untyped_iff (entries : List (NSString × JSON))
    (untyped : ∀ type, entries.lookup "__type" ≠ some (.string type)) :
    (∃ value, decodeObject platform (.dictionary entries) = .ok value) ↔
      entries.lookup "__op" = none ∧ entries.lookup "__type" = none ∧
        ∃ values, decodeEntries platform entries = .ok values := by
  simp only [decodeObject, offlineObject_untyped _ _ untyped]
  cases entries.lookup "__op" with
  | some operation => simp
  | none =>
      cases typed : entries.lookup "__type" with
      | none => simp [map_ok_iff]
      | some type =>
          cases type with
          | string text => exact absurd typed (untyped text)
          | _ => simp

/-- A dictionary without texts is decoded when no key of it says what it is. -/
theorem decode_keyed_iff (keys : List NSString) (encode : NSString → JSON)
    (noText : ∀ key text, encode key ≠ .string text) :
    (∃ value, decodeObject platform (.dictionary (keys.map fun key => (key, encode key))) =
      .ok value) ↔
    ∀ key ∈ keys, key ∉ typeKeys ∧ ∃ value, decodeObject platform (encode key) = .ok value := by
  have absent : ∀ key, (keys.map fun key => (key, encode key)).lookup key = none ↔ key ∉ keys := by
    intro key
    rw [lookup_keyed]
    split <;> simp_all
  rw [decode_untyped_iff, decodeEntries_ok_iff, absent, absent]
  · simp only [typeKeys, List.mem_cons, List.not_mem_nil, or_false, not_or, List.forall_mem_map]
    constructor
    · rintro ⟨operation, type, each⟩ key member
      refine ⟨⟨?_, ?_⟩, each key member⟩
      · rintro rfl
        exact operation member
      · rintro rfl
        exact type member
    · intro each
      exact ⟨fun operation => (each _ operation).1.1 rfl, fun type => (each _ type).1.2 rfl,
        fun key member => (each key member).2⟩
  · intro type
    rw [lookup_keyed]
    split <;> simp [noText]

theorem mem_userIds_iff (acl : PFACL) (userId : NSString) :
    userId ∈ acl.userIds ↔ ∃ accessType, (userId, accessType) ∈ acl.permissions := by
  simp [PFACL.userIds]

theorem mem_accesses_iff (acl : PFACL) (userId accessType : NSString) :
    accessType ∈ acl.accesses userId ↔ (userId, accessType) ∈ acl.permissions := by
  simp [PFACL.accesses]

theorem decode_permissions_iff (acl : PFACL) :
    (∃ value, decodeObject platform (.dictionary (encodeIntoDictionary acl)) = .ok value) ↔
      ∀ permission ∈ acl.permissions, permission.1 ∉ typeKeys ∧ permission.2 ∉ typeKeys := by
  have granted : ∀ userId, (∃ value, decodeObject platform
      (.dictionary (encodeAccesses acl userId)) = .ok value) ↔
        ∀ accessType, (userId, accessType) ∈ acl.permissions → accessType ∉ typeKeys := by
    intro userId
    rw [encodeAccesses, decode_keyed_iff _ _ _ (by simp)]
    simp [decodeObject, mem_accesses_iff]
  rw [encodeIntoDictionary, decode_keyed_iff _ _ _ (by simp)]
  simp only [granted, mem_userIds_iff, Prod.forall]
  constructor
  · intro each userId accessType member
    have names := each userId ⟨accessType, member⟩
    exact ⟨names.1, names.2 accessType member⟩
  · rintro each userId ⟨accessType, member⟩
    exact ⟨(each userId accessType member).1, fun other also => (each userId other also).2⟩

theorem setAccesses_granted (userId : NSString) (accesses : List NSString) (acl : PFACL) :
    setAccesses platform userId
      (accesses.map fun accessType => (accessType, .number ⟨.bool, 1⟩)) acl =
        .ok { acl with permissions :=
          acl.permissions ∪ (accesses.map fun accessType => (userId, accessType)).toFinset } := by
  induction accesses generalizing acl with
  | nil => simp [setAccesses]
  | cons accessType rest ih =>
      simp only [List.map_cons, setAccesses, boolValue, Bind.bind, Except.bind]
      rw [ih]
      simp [PFACL.setAccess, Finset.insert_union]

theorem setPermissions_granted (granted : PFACL) (userIds : List NSString) (acl : PFACL) :
    setPermissions platform
      (userIds.map fun userId => (userId, .dictionary (encodeAccesses granted userId))) acl =
        .ok { acl with permissions := acl.permissions ∪
          granted.permissions.filter fun permission => permission.1 ∈ userIds } := by
  induction userIds generalizing acl with
  | nil => simp [setPermissions]
  | cons userId rest ih =>
      simp only [List.map_cons, setPermissions]
      rw [encodeAccesses, setAccesses_granted]
      simp only [Bind.bind, Except.bind]
      rw [ih]
      congr 2
      ext permission
      obtain ⟨other, accessType⟩ := permission
      simp only [Finset.mem_union, List.mem_toFinset, List.mem_map, mem_accesses_iff,
        Finset.mem_filter, List.mem_cons, Prod.mk.injEq]
      grind

/-- The store keeps what an access list grants, and nothing else of it. -/
theorem aclWithDictionary_encode (acl : PFACL) :
    aclWithDictionary platform (.dictionary (encodeIntoDictionary acl)) =
      .ok ⟨acl.permissions, false, none⟩ := by
  have all : (acl.permissions.filter fun permission => permission.1 ∈ acl.userIds) =
      acl.permissions := by
    rw [Finset.filter_eq_self]
    exact fun permission member => (mem_userIds_iff acl permission.1).mpr ⟨permission.2, member⟩
  rw [aclWithDictionary, encodeIntoDictionary, setPermissions_granted, all]
  simp [PFACL.empty]

theorem operationOf_encode_iff (key : NSString) (operation : PFFieldOperation ParseValue) :
    operationOf platform key (encodeOperation platform operation) = .ok operation ↔
      ReadableField platform key operation := by
  by_cases access : key = "ACL"
  · rw [operationOf, ReadableField, if_pos access, if_pos access]
    simp only [bind_ok_iff, pure, Except.pure, Except.ok.injEq]
    have settled : ∀ acl, operation = .set (.acl acl) →
        ((∃ value, decodeObject platform (encodeOperation platform operation) = .ok value ∧
          ∃ read, aclWithDictionary platform (encodeOperation platform operation) = .ok read ∧
            .set (.acl read) = operation) ↔ ReadableACL operation) := by
      rintro acl rfl
      have decoded := decode_permissions_iff platform acl
      simp only [encodeOperation, encodeObject, aclWithDictionary_encode, ReadableACL, ← decoded,
        Except.ok.injEq, exists_eq_left', PFFieldOperation.set.injEq, ParseValue.acl.injEq]
      constructor
      · rintro ⟨value, read, same⟩
        rw [← same]
        exact ⟨rfl, rfl, value, read⟩
      · rintro ⟨unshared, resolved, value, read⟩
        obtain ⟨permissions, shared, unresolvedUser⟩ := acl
        cases unshared
        cases resolved
        exact ⟨value, read, rfl⟩
    cases operation with
    | set value =>
        cases value with
        | acl acl => exact settled acl rfl
        | _ => simp [ReadableACL]
    | _ => simp [ReadableACL]
  · rw [operationOf, ReadableField, if_neg access, if_neg access, readOperation_encode_iff]

/-- An operation set with what tells it from the others. -/
structure StoredSet where
  uuid : NSString
  updatedAt : Option NSDate
  saveEventually : Bool
  operations : PFOperationSet ParseValue

def encodeFields (operations : PFOperationSet ParseValue) :
    NSDictionary JSON × Option Empty :=
  writeAll (fun operation _ => .ok (some (encodeOperation platform operation))) operations ∅

/-- `RESTDictionaryUsingObjectEncoder:operationSetUUIDs:`; a missing date leaves its key out. -/
def restDictionary (operationSet : StoredSet) : NSDictionary JSON :=
  let dated := put "__updatedAt"
    (operationSet.updatedAt.map fun date => encodeObject platform (.date date))
    ((encodeFields platform operationSet.operations).1.insert "__uuid"
      (.string operationSet.uuid))
  if operationSet.saveEventually then dated.insert "__isSaveEventually" (.number ⟨.bool, 1⟩)
  else dated

def uuidOf (data : NSDictionary JSON) (newUUID : NSString) : Except Undecoded NSString :=
  match data.lookup "__uuid" with
  | none => .ok newUUID
  | some (.string uuid) => .ok uuid
  | some _ => .error .malformed

def saveEventuallyOf (data : NSDictionary JSON) : Except Undecoded Bool :=
  match data.lookup "__isSaveEventually" with
  | none => .ok false
  | some (.number flag) => .ok (flag.value ≠ 0)
  | some _ => .error .malformed

def updatedAtOf (data : NSDictionary JSON) : Except Undecoded (Option NSDate) :=
  match data.lookup "__updatedAt" with
  | none => .ok none
  | some updatedAt =>
      match decodeObject platform updatedAt with
      | .ok (.date date) => .ok (some date)
      | .ok _ => .error .malformed
      | .error undecoded => .error undecoded

def fieldsOf (data : NSDictionary JSON) : NSDictionary JSON :=
  ((data.erase "__uuid").erase "__isSaveEventually").erase "__updatedAt"

def readField (key : NSString) (field : JSON) (_ : Option (PFFieldOperation ParseValue)) :
    Except Undecoded (Option (PFFieldOperation ParseValue)) :=
  (operationOf platform key field).map some

-- all fields but the access list are read alike
def readOthers (fields : NSDictionary JSON) : PFOperationSet ParseValue × Option Undecoded :=
  writeAll (fun field _ => (readOperation platform field).map some) (fields.erase "ACL") ∅

def operationsOf (fields : NSDictionary JSON) : Except Undecoded (PFOperationSet ParseValue) :=
  match (readOthers platform fields).2, fields.lookup "ACL" with
  | some undecoded, _ => .error undecoded
  | none, none => .ok (readOthers platform fields).1
  | none, some field =>
      (operationOf platform "ACL" field).map fun operation =>
        (readOthers platform fields).1.insert "ACL" operation

def operationSetFromRESTDictionary (data : NSDictionary JSON) (newUUID : NSString) :
    Except Undecoded StoredSet := do
  let uuid ← uuidOf data newUUID
  let saveEventually ← saveEventuallyOf data
  let operations ← operationsOf platform (fieldsOf data)
  let updatedAt ← updatedAtOf platform data
  return ⟨uuid, updatedAt, saveEventually, operations⟩

def bookkeepingKeys : List NSString := ["__uuid", "__isSaveEventually", "__updatedAt"]

def ReadBack (operationSet read : StoredSet) : Prop :=
  read.uuid = operationSet.uuid ∧ read.updatedAt = operationSet.updatedAt ∧
    read.saveEventually = operationSet.saveEventually ∧
      ∀ key, read.operations.lookup key = operationSet.operations.lookup key

/-- No field stands under a key of what is no field, and all can be read. -/
structure Storable (operationSet : StoredSet) : Prop where
  date : ∀ date, operationSet.updatedAt = some date → Readable platform (.date date)
  free : ∀ key operation, operationSet.operations.lookup key = some operation →
    key ∉ bookkeepingKeys
  readable : ∀ key operation, operationSet.operations.lookup key = some operation →
    ReadableField platform key operation

theorem encodeFields_lookup (operations : PFOperationSet ParseValue) (key : NSString) :
    (encodeFields platform operations).1.lookup key =
      (operations.lookup key).map (encodeOperation platform) := by
  have done : (encodeFields platform operations).2 = none := by
    apply (writeAll_done_iff _ operations ∅).mpr
    intro key
    cases operations.lookup key <;> simp
  have written := writeAll_spec _ operations ∅ done key
  cases found : operations.lookup key <;> simpa [encodeFields, found] using written.symm

theorem restDictionary_uuid (operationSet : StoredSet) :
    (restDictionary platform operationSet).lookup "__uuid" = some (.string operationSet.uuid) := by
  cases flag : operationSet.saveEventually <;> simp [restDictionary, flag]

theorem restDictionary_updatedAt (operationSet : StoredSet) :
    (restDictionary platform operationSet).lookup "__updatedAt" =
      operationSet.updatedAt.map fun date => encodeObject platform (.date date) := by
  cases flag : operationSet.saveEventually <;> simp [restDictionary, flag]

theorem restDictionary_flag (operationSet : StoredSet) :
    (restDictionary platform operationSet).lookup "__isSaveEventually" =
      if operationSet.saveEventually then some (.number ⟨.bool, 1⟩)
      else (operationSet.operations.lookup "__isSaveEventually").map
        (encodeOperation platform) := by
  cases flag : operationSet.saveEventually <;> simp [restDictionary, flag, encodeFields_lookup]

theorem fieldsOf_lookup (operationSet : StoredSet) (key : NSString) :
    (fieldsOf (restDictionary platform operationSet)).lookup key =
      if key ∈ bookkeepingKeys then none
      else (operationSet.operations.lookup key).map (encodeOperation platform) := by
  by_cases bookkeeping : key ∈ bookkeepingKeys
  · rw [if_pos bookkeeping]
    simp only [bookkeepingKeys, List.mem_cons, List.not_mem_nil, or_false] at bookkeeping
    rcases bookkeeping with rfl | rfl | rfl <;> simp [fieldsOf, AList.lookup_erase_ne]
  · rw [if_neg bookkeeping]
    simp only [bookkeepingKeys, List.mem_cons, List.not_mem_nil, or_false, not_or] at bookkeeping
    obtain ⟨uuid, saveEventually, updatedAt⟩ := bookkeeping
    rw [fieldsOf, AList.lookup_erase_ne updatedAt, AList.lookup_erase_ne saveEventually,
      AList.lookup_erase_ne uuid, ← encodeFields_lookup]
    cases flag : operationSet.saveEventually <;>
      simp [restDictionary, flag, uuid, saveEventually, updatedAt, AList.lookup_insert_ne]

theorem readField_alone (key : NSString) (different : key ≠ "ACL") (fields : NSDictionary JSON) :
    writeAt (readField platform key) (fields.lookup key) none =
      writeAt (fun field _ => (readOperation platform field).map some)
        ((fields.erase "ACL").lookup key) none := by
  rw [AList.lookup_erase_ne different]
  cases fields.lookup key <;> simp [readField, operationOf, different]

theorem readOthers_iff (fields : NSDictionary JSON) (operations : PFOperationSet ParseValue) :
    ((readOthers platform fields).2 = none ∧ ∀ key, key ≠ "ACL" →
      (readOthers platform fields).1.lookup key = operations.lookup key) ↔
    ∀ key, key ≠ "ACL" → writeAt (readField platform key) (fields.lookup key) none =
      .ok (operations.lookup key) := by
  have each := writeAll_spec (fun field _ => (readOperation platform field).map some)
    (fields.erase "ACL") ∅
  have done := writeAll_done_iff (fun field _ => (readOperation platform field).map some)
    (fields.erase "ACL") ∅
  simp only [AList.lookup_empty] at each done
  constructor
  · rintro ⟨finished, same⟩ key other
    rw [readField_alone platform key other, each finished key, ← same key other]
    rfl
  · intro alone
    have finished := done.mpr fun key => by
      by_cases other : key = "ACL"
      · exact ⟨none, by rw [other, AList.lookup_erase, writeAt_none]⟩
      · exact ⟨_, (readField_alone platform key other fields).symm.trans (alone key other)⟩
    refine ⟨finished, fun key other => ?_⟩
    have read := each finished key
    rw [← readField_alone platform key other, alone key other] at read
    exact (Except.ok.inj read).symm

theorem readOthers_acl (fields : NSDictionary JSON)
    (finished : (readOthers platform fields).2 = none) :
    (readOthers platform fields).1.lookup "ACL" = none := by
  have untouched := writeAll_spec (fun field _ => (readOperation platform field).map some)
    (fields.erase "ACL") ∅ finished "ACL"
  rw [AList.lookup_erase, writeAt_none] at untouched
  exact (Except.ok.inj untouched).symm

/-- Fields are read together when each is, and then each as it is read alone. -/
theorem operationsOf_iff (fields : NSDictionary JSON) (operations : PFOperationSet ParseValue) :
    (∃ read, operationsOf platform fields = .ok read ∧
      ∀ key, read.lookup key = operations.lookup key) ↔
    ∀ key, writeAt (readField platform key) (fields.lookup key) none =
      .ok (operations.lookup key) := by
  have apart : ∀ holds : NSString → Prop,
      (∀ key, holds key) ↔ holds "ACL" ∧ ∀ key, key ≠ "ACL" → holds key := by
    intro holds
    refine ⟨fun all => ⟨all "ACL", fun key _ => all key⟩, ?_⟩
    rintro ⟨access, others⟩ key
    by_cases other : key = "ACL"
    · rw [other]
      exact access
    · exact others key other
  rw [apart fun key => writeAt (readField platform key) (fields.lookup key) none =
    .ok (operations.lookup key), ← readOthers_iff, operationsOf]
  cases finished : (readOthers platform fields).2 with
  | some undecoded => simp
  | none =>
      have untouched := readOthers_acl platform fields finished
      cases found : fields.lookup "ACL" with
      | none =>
          simp only [Except.ok.injEq, exists_eq_left', writeAt_none, true_and]
          rw [apart, untouched]
      | some field =>
          simp only [writeAt_some, readField, map_ok_iff, true_and]
          constructor
          · rintro ⟨read, ⟨operation, decoded, rfl⟩, same⟩
            refine ⟨⟨operation, decoded, ?_⟩, fun key other => ?_⟩
            · rw [← same, AList.lookup_insert]
            · rw [← same, AList.lookup_insert_ne other]
          · rintro ⟨⟨operation, decoded, same⟩, others⟩
            refine ⟨_, ⟨operation, decoded, rfl⟩, (apart _).mpr ⟨?_, fun key other => ?_⟩⟩
            · rw [AList.lookup_insert, same]
            · rw [AList.lookup_insert_ne other, others key other]

theorem field_read_iff (operationSet : StoredSet) (key : NSString) :
    writeAt (readField platform key)
        ((fieldsOf (restDictionary platform operationSet)).lookup key) none =
          .ok (operationSet.operations.lookup key) ↔
      ∀ operation, operationSet.operations.lookup key = some operation →
        key ∉ bookkeepingKeys ∧ ReadableField platform key operation := by
  rw [fieldsOf_lookup]
  by_cases bookkeeping : key ∈ bookkeepingKeys
  · cases operationSet.operations.lookup key <;> simp [bookkeeping]
  · cases operationSet.operations.lookup key with
    | none => simp [bookkeeping]
    | some operation =>
        simp [bookkeeping, readField, map_ok_iff, operationOf_encode_iff]

theorem updatedAt_read_iff (operationSet : StoredSet) :
    updatedAtOf platform (restDictionary platform operationSet) = .ok operationSet.updatedAt ↔
      ∀ date, operationSet.updatedAt = some date → Readable platform (.date date) := by
  rw [updatedAtOf, restDictionary_updatedAt]
  cases operationSet.updatedAt with
  | none => simp
  | some date =>
      have decoded := decode_encode platform (.date date)
      simp only [Option.map_some, Option.some.injEq, forall_eq']
      rw [← decoded]
      cases decodeObject platform (encodeObject platform (.date date)) with
      | error undecoded => simp
      | ok value => cases value <;> simp

theorem saveEventually_read (operationSet : StoredSet)
    (free : operationSet.operations.lookup "__isSaveEventually" = none) :
    saveEventuallyOf (restDictionary platform operationSet) =
      .ok operationSet.saveEventually := by
  rw [saveEventuallyOf, restDictionary_flag, free]
  cases operationSet.saveEventually <;> simp

/-- A set comes back from the store as it was given to it exactly when it is storable. -/
theorem read_back_iff (operationSet : StoredSet) (newUUID : NSString) :
    (∃ read, operationSetFromRESTDictionary platform (restDictionary platform operationSet)
      newUUID = .ok read ∧ ReadBack operationSet read) ↔ Storable platform operationSet := by
  have fields := operationsOf_iff platform (fieldsOf (restDictionary platform operationSet))
    operationSet.operations
  simp only [field_read_iff] at fields
  constructor
  · rintro ⟨read, decoded, -, date, -, same⟩
    simp only [operationSetFromRESTDictionary, bind_ok_iff, pure, Except.pure,
      Except.ok.injEq] at decoded
    obtain ⟨uuid, -, flag, -, operations, all, updatedAt, dated, rfl⟩ := decoded
    have each := fields.mp ⟨operations, all, same⟩
    exact ⟨(updatedAt_read_iff platform operationSet).mp (date ▸ dated),
      fun key operation found => (each key operation found).1,
      fun key operation found => (each key operation found).2⟩
  · intro storable
    have noFlag : operationSet.operations.lookup "__isSaveEventually" = none := by
      cases found : operationSet.operations.lookup "__isSaveEventually" with
      | none => rfl
      | some operation => exact absurd (by decide) (storable.free _ operation found)
    obtain ⟨operations, all, same⟩ := fields.mpr fun key operation found =>
      ⟨storable.free key operation found, storable.readable key operation found⟩
    refine ⟨⟨operationSet.uuid, operationSet.updatedAt, operationSet.saveEventually, operations⟩,
      ?_, rfl, rfl, rfl, same⟩
    have dated := (updatedAt_read_iff platform operationSet).mpr storable.date
    have named : uuidOf (restDictionary platform operationSet) newUUID =
        .ok operationSet.uuid := by rw [uuidOf, restDictionary_uuid]
    rw [operationSetFromRESTDictionary, named, saveEventually_read platform operationSet noFlag,
      all, dated]
    rfl

end CollectionViewWorkshop.StoredOperations
