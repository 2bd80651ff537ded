import CollectionViewWorkshop.Rounding
import Mathlib.Data.Rat.Floor

/-!
`NSNumber` and the addition of `PFInternalUtils`, which works in the C type of
its first argument and reads the second in that type as well. A 64-bit build; a
sum too large for its type wraps, as does a value read in too narrow a type,
and the exponent range of floats and doubles is left out. The type a number is
kept as need not be the one it was made of.
-/

namespace CollectionViewWorkshop.Numbers

open Rounding

inductive ObjCType where
  | bool | char | double | float | int | long | longLong | short
  | unsignedChar | unsignedInt | unsignedLong | unsignedLongLong | unsignedShort
  deriving DecidableEq

structure NSNumber where
  objCType : ObjCType
  value : ℚ
  deriving DecidableEq

def signedValue (bits : ℕ) (value : ℚ) : ℚ := (truncate value).bmod (2 ^ bits)

def unsignedValue (bits : ℕ) (value : ℚ) : ℚ := (truncate value % 2 ^ bits : ℤ)

/-- `boolValue`, `charValue` and the other accessors. -/
def ObjCType.read : ObjCType → ℚ → ℚ
  | .bool => fun value => if value = 0 then 0 else 1
  | .char => signedValue 8
  | .double => roundSignificand 53
  | .float => roundSignificand 24
  | .int => signedValue 32
  | .long => signedValue 64
  | .longLong => signedValue 64
  | .short => signedValue 16
  | .unsignedChar => unsignedValue 8
  | .unsignedInt => unsignedValue 32
  | .unsignedLong => unsignedValue 64
  | .unsignedLongLong => unsignedValue 64
  | .unsignedShort => unsignedValue 16

def ObjCType.promoted : ObjCType → ObjCType
  | .bool | .char | .short | .unsignedChar | .unsignedShort => .int
  | objCType => objCType

/-- What `objCType` answers for a number made of a value of a type: Foundation has
no unsigned numbers but those past the signed ones, and no `long`. -/
def ObjCType.kept (value : ℚ) : ObjCType → ObjCType
  | .unsignedChar => .short
  | .unsignedShort => .int
  | .unsignedInt | .long => .longLong
  | .unsignedLong | .unsignedLongLong =>
      if value < 2 ^ 63 then .longLong else .unsignedLongLong
  | objCType => objCType

def addNumber (first second : NSNumber) : NSNumber :=
  let sum := first.objCType.promoted.read
    (first.objCType.read first.value + first.objCType.read second.value)
  ⟨first.objCType.promoted.kept sum, sum⟩

/-- The bits of the signed types no addition leaves. -/
def ObjCType.wholeBits : ObjCType → Option ℕ
  | .int => some 32
  | .long | .longLong => some 64
  | _ => none

theorem truncate_intCast (whole : ℤ) : truncate (whole : ℚ) = whole := by
  unfold truncate
  split
  · exact Int.floor_intCast whole
  · exact Int.ceil_intCast whole

/-- The sum of such a number and any other one is kept as one of the same width. -/
theorem addNumber_whole (first second : NSNumber) (bits : ℕ)
    (wide : first.objCType.wholeBits = some bits) :
    addNumber first second = ⟨first.objCType.kept 0,
      (truncate first.value + truncate second.value).bmod (2 ^ bits)⟩ := by
  have integral : ∀ one other : ℤ, truncate ((one : ℚ) + other) = one + other := by
    intro one other
    rw [← Int.cast_add, truncate_intCast]
  obtain ⟨objCType, value⟩ := first
  cases objCType <;> cases wide <;>
    simp [addNumber, ObjCType.promoted, ObjCType.kept, ObjCType.read, signedValue, integral]

theorem kept_wholeBits (objCType : ObjCType) (bits : ℕ) (wide : objCType.wholeBits = some bits) :
    (objCType.kept 0).wholeBits = some bits ∧ (objCType.kept 0).kept 0 = objCType.kept 0 := by
  cases objCType <;> cases wide <;> exact ⟨rfl, rfl⟩

theorem addNumber_wholeBits (first second : NSNumber) (bits : ℕ)
    (wide : first.objCType.wholeBits = some bits) :
    (addNumber first second).objCType.wholeBits = some bits := by
  rw [addNumber_whole first second bits wide]
  exact (kept_wholeBits first.objCType bits wide).1

/-- Amounts of one width are added in either grouping, to a number of any type. -/
theorem addNumber_regroups (later earlier base : NSNumber) (bits : ℕ)
    (wide : later.objCType.wholeBits = some bits)
    (also : earlier.objCType.wholeBits = some bits) :
    addNumber (addNumber later earlier) base = addNumber later (addNumber earlier base) := by
  rw [addNumber_whole (addNumber later earlier) base bits (addNumber_wholeBits _ _ bits wide),
    addNumber_whole later earlier bits wide, addNumber_whole later _ bits wide,
    addNumber_whole earlier base bits also]
  simp only [truncate_intCast, (kept_wholeBits later.objCType bits wide).2, Int.bmod_add_bmod,
    Int.add_bmod_bmod, add_assoc]

end CollectionViewWorkshop.Numbers
