import CollectionViewWorkshop.CoreGraphics
import CollectionViewWorkshop.ObjectiveC
import CollectionViewWorkshop.Rounding

/-!
`StreamItem`, the part of `PFObject` it is stored through, and
`StreamItemTransformer` (Photo Stream/Model). A `CGFloat` is an exact rational;
an infinite one is `infinity` or its negative, which no finite double reaches.
A stored value of another class than its column's is left out: the service
fixes the class of a column when it is first used.
-/

namespace CollectionViewWorkshop.StreamItemTransformer

open CoreGraphics ObjectiveC Rounding

abbrev NSString := String
abbrev NSData := List UInt8
abbrev CGFloat := ℚ

structure StreamItem where
  data : Option NSData
  title : Option NSString
  size : CGSize CGFloat
  deriving DecidableEq

/-- The class name and the properties of `[StreamItem new]`. -/
def StreamItem.className : NSString := "StreamItem"

def StreamItem.new : StreamItem := ⟨none, none, .zero⟩

def StreamItem.Complete (item : StreamItem) : Prop :=
  item.data.isSome ∧ item.title.isSome

instance (item : StreamItem) : Decidable item.Complete :=
  inferInstanceAs (Decidable (_ ∧ _))

inductive PFValue where
  | data (bytes : NSData)
  | string (text : NSString)
  | number (value : CGFloat)
  deriving DecidableEq

def PFValue.asData : PFValue → Option NSData
  | .data bytes => some bytes
  | _ => none

def PFValue.asString : PFValue → Option NSString
  | .string text => some text
  | _ => none

def PFValue.asNumber : PFValue → Option CGFloat
  | .number value => some value
  | _ => none

structure PFObject where
  className : NSString
  entries : List (NSString × PFValue)
  deriving DecidableEq

def PFObject.objectWithClassName : Option NSString → Except NSException PFObject
  | none => .error (.invalidArgument "Class name can't be 'nil'.")
  | some className =>
      if className.toList.head? = some '_' then
        .error (.invalidArgument
          "Invalid class name. Class names cannot start with an underscore.")
      else .ok ⟨className, []⟩

def PFObject.setObjectForKey (object : PFObject) (value : Option PFValue) (key : NSString) :
    Except NSException PFObject :=
  match value with
  | none => .error (.invalidArgument
      "Can't use nil for keys or values on PFObject. Use NSNull for values.")
  | some value =>
      .ok { object with
        entries := object.entries.filter (fun entry => entry.1 != key) ++ [(key, value)] }

def PFObject.objectForKey (object : PFObject) (key : NSString) : Option PFValue :=
  object.entries.lookup key

def streamItemDataKey : NSString := "data"
def streamItemTitleKey : NSString := "title"
def streamItemWidthKey : NSString := "width"
def streamItemHeightKey : NSString := "height"

def binary32 : BinaryFormat := ⟨24, -149, 128⟩

/-- `INFINITY`; no finite `CGFloat` is as large. -/
def infinity : CGFloat := 2 ^ 1024

/-- `(float)value`; what is too large for a float becomes infinite. -/
def toFloat (value : CGFloat) : CGFloat :=
  (binary32.round value).getD (if value < 0 then -infinity else infinity)

/-- `[number floatValue]`; nil answers zero. -/
def floatValue (number : Option PFValue) : CGFloat :=
  toFloat ((number.bind PFValue.asNumber).getD 0)

/-- A value of 24 bits within the range of a float, or an infinite one. -/
def FloatHolds (value : CGFloat) : Prop :=
  binary32.Holds value ∨ |value| = infinity

theorem power_of_leastBit (exponent : ℕ) :
    (2 : CGFloat) ^ exponent = ((2 ^ (exponent + 149) : ℤ) : CGFloat) * 2 ^ binary32.leastBit := by
  have shift : (exponent : ℤ) = ((exponent + 149 : ℕ) : ℤ) + binary32.leastBit := by
    have least : binary32.leastBit = -149 := rfl
    omega
  rw [Int.cast_pow, Int.cast_ofNat, ← zpow_natCast _ (exponent + 149), ← zpow_add₀ two_ne_zero,
    ← shift, zpow_natCast]

theorem round_infinite (value : CGFloat) (infinite : |value| = infinity) :
    binary32.round value = none := by
  have beyond : ¬ |value| < 2 ^ binary32.limit := by
    rw [infinite, infinity, binary32, ← zpow_natCast, not_lt]
    exact zpow_le_zpow_right₀ one_le_two (by decide)
  -- one bit is enough for it, so it is not rounded, only too large
  have kept := (BinaryFormat.kept_iff binary32 (by decide) value).mpr (by
    rcases eq_or_eq_neg_of_abs_eq infinite with rfl | rfl
    · exact ⟨⟨1, 1024, by decide, by
        rw [infinity, Int.cast_one, one_mul, zpow_ofNat]⟩, _, power_of_leastBit 1024⟩
    · exact ⟨⟨-1, 1024, by decide, by
        rw [infinity, Int.cast_neg, Int.cast_one, neg_one_mul, zpow_ofNat]⟩, -2 ^ (1024 + 149), by
        rw [infinity, power_of_leastBit 1024, Int.cast_neg, neg_mul]⟩)
  simp only [BinaryFormat.round, kept, beyond, if_false]

theorem toFloat_eq_iff (value : CGFloat) : toFloat value = value ↔ FloatHolds value := by
  rw [FloatHolds, ← BinaryFormat.round_eq_some_iff binary32 (by decide)]
  cases rounded : binary32.round value with
  | some kept =>
      have finite : |value| ≠ infinity := by
        intro infinite
        rw [round_infinite value infinite] at rounded
        cases rounded
      simp [toFloat, rounded, finite]
  | none =>
      have positive : (0 : CGFloat) < infinity := by norm_num [infinity]
      simp only [toFloat, rounded, Option.getD_none, reduceCtorEq, false_or]
      by_cases negative : value < 0
      · rw [if_pos negative, abs_of_neg negative, neg_eq_iff_eq_neg, eq_comm, neg_eq_iff_eq_neg,
          eq_comm, neg_eq_iff_eq_neg]
      · rw [if_neg negative, abs_of_nonneg (not_lt.mp negative)]
        exact eq_comm

theorem floatHolds_natCast (whole : ℕ) (bounded : whole ≤ 2 ^ 24) :
    FloatHolds (whole : CGFloat) := by
  refine Or.inl ⟨fits_natCast 24 whole bounded, ⟨whole * 2 ^ (0 + 149), ?_⟩, ?_⟩
  · have one := power_of_leastBit 0
    rw [pow_zero] at one
    rw [Int.cast_mul, mul_assoc, ← one]
    simp
  · rw [Nat.abs_cast]
    have inside : (whole : CGFloat) ≤ 2 ^ 24 := by exact_mod_cast bounded
    exact inside.trans_lt (by norm_num [binary32])

def parseObjectFromStreamItem (streamItem : Option StreamItem) : Except NSException PFObject := do
  let size := (streamItem.map StreamItem.size).getD .zero
  let empty ← PFObject.objectWithClassName (streamItem.map fun _ => StreamItem.className)
  let withData ← empty.setObjectForKey
    ((streamItem.bind StreamItem.data).map .data) streamItemDataKey
  let withTitle ← withData.setObjectForKey
    ((streamItem.bind StreamItem.title).map .string) streamItemTitleKey
  let withWidth ← withTitle.setObjectForKey (some (.number size.width)) streamItemWidthKey
  withWidth.setObjectForKey (some (.number size.height)) streamItemHeightKey

def streamItemFromParseObject (parseObject : PFObject) : StreamItem where
  title := (parseObject.objectForKey streamItemTitleKey).bind PFValue.asString
  data := (parseObject.objectForKey streamItemDataKey).bind PFValue.asData
  size := ⟨floatValue (parseObject.objectForKey streamItemWidthKey),
    floatValue (parseObject.objectForKey streamItemHeightKey)⟩

def encoded (data : NSData) (title : NSString) (size : CGSize CGFloat) : PFObject where
  className := StreamItem.className
  entries := [(streamItemDataKey, .data data), (streamItemTitleKey, .string title),
    (streamItemWidthKey, .number size.width), (streamItemHeightKey, .number size.height)]

theorem objectWithClassName_streamItem :
    PFObject.objectWithClassName (some StreamItem.className) =
      .ok ⟨StreamItem.className, []⟩ := by
  simp [PFObject.objectWithClassName, StreamItem.className]

theorem parseObject_complete (data : NSData) (title : NSString) (size : CGSize CGFloat) :
    parseObjectFromStreamItem (some ⟨some data, some title, size⟩) =
      .ok (encoded data title size) := by
  simp [parseObjectFromStreamItem, objectWithClassName_streamItem, PFObject.setObjectForKey,
    encoded, streamItemDataKey, streamItemTitleKey, streamItemWidthKey, streamItemHeightKey,
    bind, Except.bind]

theorem parseObject_nil (object : PFObject) :
    parseObjectFromStreamItem none ≠ .ok object := by
  simp [parseObjectFromStreamItem, PFObject.objectWithClassName, bind, Except.bind]

theorem parseObject_no_data (title : Option NSString) (size : CGSize CGFloat)
    (object : PFObject) :
    parseObjectFromStreamItem (some ⟨none, title, size⟩) ≠ .ok object := by
  simp [parseObjectFromStreamItem, objectWithClassName_streamItem, PFObject.setObjectForKey,
    bind, Except.bind]

theorem parseObject_no_title (data : NSData) (size : CGSize CGFloat) (object : PFObject) :
    parseObjectFromStreamItem (some ⟨some data, none, size⟩) ≠ .ok object := by
  simp [parseObjectFromStreamItem, objectWithClassName_streamItem, PFObject.setObjectForKey,
    bind, Except.bind]

/-- The encoder raises exactly for a nil item and for nil data or title. -/
theorem parseObject_ok_iff (streamItem : Option StreamItem) (object : PFObject) :
    parseObjectFromStreamItem streamItem = .ok object ↔
      ∃ data title size, streamItem = some ⟨some data, some title, size⟩ ∧
        object = encoded data title size := by
  constructor
  · intro parsed
    rcases streamItem with _ | ⟨_ | data, title, size⟩
    · exact absurd parsed (parseObject_nil object)
    · exact absurd parsed (parseObject_no_data title size object)
    · rcases title with _ | title
      · exact absurd parsed (parseObject_no_title data size object)
      · rw [parseObject_complete] at parsed
        exact ⟨data, title, size, rfl, (Except.ok.inj parsed).symm⟩
  · rintro ⟨data, title, size, rfl, rfl⟩
    exact parseObject_complete data title size

theorem parseObject_isOk_iff_complete (item : StreamItem) :
    (∃ object, parseObjectFromStreamItem (some item) = .ok object) ↔ item.Complete := by
  constructor
  · rintro ⟨object, parsed⟩
    obtain ⟨data, title, size, same, -⟩ := (parseObject_ok_iff (some item) object).mp parsed
    cases same
    exact ⟨rfl, rfl⟩
  · rcases item with ⟨_ | data, _ | title, size⟩ <;> rintro ⟨hasData, hasTitle⟩
    · cases hasData
    · cases hasData
    · cases hasTitle
    · exact ⟨encoded data title size, parseObject_complete data title size⟩

theorem objectForKey_encoded (data : NSData) (title : NSString) (size : CGSize CGFloat) :
    (encoded data title size).objectForKey streamItemDataKey = some (.data data) ∧
      (encoded data title size).objectForKey streamItemTitleKey = some (.string title) ∧
      (encoded data title size).objectForKey streamItemWidthKey = some (.number size.width) ∧
      (encoded data title size).objectForKey streamItemHeightKey =
        some (.number size.height) := by
  simp [encoded, PFObject.objectForKey, streamItemDataKey, streamItemTitleKey,
    streamItemWidthKey, streamItemHeightKey, List.lookup_cons]

/-- Decoding gives back the title and the data, and the size through a float. -/
theorem decode_encoded (data : NSData) (title : NSString) (size : CGSize CGFloat) :
    streamItemFromParseObject (encoded data title size) =
      ⟨some data, some title,
        ⟨toFloat size.width, toFloat size.height⟩⟩ := by
  simp [streamItemFromParseObject, objectForKey_encoded, floatValue, PFValue.asData,
    PFValue.asString, PFValue.asNumber]

end CollectionViewWorkshop.StreamItemTransformer
