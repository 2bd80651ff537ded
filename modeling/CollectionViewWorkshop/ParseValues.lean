import CollectionViewWorkshop.Numbers
import Mathlib.Data.Finset.Sort
import Mathlib.Data.String.Basic

/-!
The values a `PFObject` may hold (`PFObjectAssertValueIsKindOfValidClass`),
without relations. An object is held by reference: `identity` tells two of them
apart whatever their `objectId`. Entries of a dictionary are listed in one
order, in which two equal dictionaries agree.
-/

namespace CollectionViewWorkshop.ParseValues

open Numbers

abbrev NSString := String
abbrev NSData := List UInt8
abbrev NSDate := ℚ

structure ObjectReference where
  className : NSString
  objectId : Option NSString
  identity : ℕ
  deriving DecidableEq

structure PFGeoPoint where
  latitude : ℚ
  longitude : ℚ
  deriving DecidableEq

/-- A file has a url once it is saved. It is held by reference as well. -/
structure PFFile where
  name : NSString
  url : Option NSString
  identity : ℕ
  deriving DecidableEq

/-- `permissions` are the user ids with the accesses they are granted: `setAccess:to:forUserId:`
drops an access that is taken back, and a user with none. -/
structure PFACL where
  permissions : Finset (NSString × NSString)
  shared : Bool
  unresolvedUser : Option ObjectReference
  deriving DecidableEq

namespace PFACL

def empty : PFACL := ⟨∅, false, none⟩

def setAccess (accessType : NSString) (allowed : Bool) (userId : NSString) (acl : PFACL) : PFACL :=
  { acl with permissions :=
      if allowed then insert (userId, accessType) acl.permissions
      else acl.permissions.erase (userId, accessType) }

def hasUnresolvedUser (acl : PFACL) : Bool := acl.unresolvedUser.isSome

def userIds (acl : PFACL) : List NSString := (acl.permissions.image Prod.fst).sort

def accesses (acl : PFACL) (userId : NSString) : List NSString :=
  ((acl.permissions.filter fun permission => permission.1 = userId).image Prod.snd).sort

end PFACL

inductive ParseValue where
  | null
  | number (value : NSNumber)
  | string (text : NSString)
  | data (bytes : NSData)
  | date (date : NSDate)
  | geoPoint (point : PFGeoPoint)
  | file (file : PFFile)
  | acl (acl : PFACL)
  | object (reference : ObjectReference)
  | array (elements : List ParseValue)
  | dictionary (entries : List (NSString × ParseValue))

namespace ParseValue

mutual

def same : ParseValue → ParseValue → Bool
  | .null, .null => true
  | .number first, .number second => first = second
  | .string first, .string second => first = second
  | .data first, .data second => first = second
  | .date first, .date second => first = second
  | .geoPoint first, .geoPoint second => first = second
  | .file first, .file second => first = second
  | .acl first, .acl second => first = second
  | .object first, .object second => first = second
  | .array first, .array second => sameElements first second
  | .dictionary first, .dictionary second => sameEntries first second
  | _, _ => false

def sameElements : List ParseValue → List ParseValue → Bool
  | [], [] => true
  | first :: restFirst, second :: restSecond =>
      same first second && sameElements restFirst restSecond
  | _, _ => false

def sameEntries : List (NSString × ParseValue) → List (NSString × ParseValue) → Bool
  | [], [] => true
  | (keyFirst, first) :: restFirst, (keySecond, second) :: restSecond =>
      decide (keyFirst = keySecond) && same first second && sameEntries restFirst restSecond
  | _, _ => false

end

mutual

theorem same_iff : ∀ first second : ParseValue, same first second = true ↔ first = second
  | .array first, second => by
      cases second <;> simp [same, sameElements_iff]
  | .dictionary first, second => by
      cases second <;> simp [same, sameEntries_iff]
  | .null, second => by cases second <;> simp [same]
  | .number first, second => by cases second <;> simp [same]
  | .string first, second => by cases second <;> simp [same]
  | .data first, second => by cases second <;> simp [same]
  | .date first, second => by cases second <;> simp [same]
  | .geoPoint first, second => by cases second <;> simp [same]
  | .file first, second => by cases second <;> simp [same]
  | .acl first, second => by cases second <;> simp [same]
  | .object first, second => by cases second <;> simp [same]

theorem sameElements_iff : ∀ first second : List ParseValue,
    sameElements first second = true ↔ first = second
  | [], second => by cases second <;> simp [sameElements]
  | first :: rest, [] => by simp [sameElements]
  | first :: rest, second :: others => by
      simp [sameElements, same_iff first second, sameElements_iff rest others]

theorem sameEntries_iff : ∀ first second : List (NSString × ParseValue),
    sameEntries first second = true ↔ first = second
  | [], second => by cases second <;> simp [sameEntries]
  | first :: rest, [] => by simp [sameEntries]
  | (key, first) :: rest, (other, second) :: others => by
      simp [sameEntries, same_iff first second, sameEntries_iff rest others]

end

mutual

/-- What `isEqual:` compares: of a number its value, whatever its type. -/
def essence : ParseValue → ParseValue
  | .number value => .number ⟨.double, value.value⟩
  | .array elements => .array (essences elements)
  | .dictionary entries => .dictionary (entryEssences entries)
  | value => value

def essences : List ParseValue → List ParseValue
  | [] => []
  | element :: rest => essence element :: essences rest

def entryEssences : List (NSString × ParseValue) → List (NSString × ParseValue)
  | [] => []
  | (key, value) :: rest => (key, essence value) :: entryEssences rest

end

end ParseValue

instance : DecidableEq ParseValue := fun first second =>
  decidable_of_iff _ (ParseValue.same_iff first second)

end CollectionViewWorkshop.ParseValues
