import CollectionViewWorkshop.StreamItemCreator

/-!
What is uploaded is what is downloaded. A float keeps a stored size exactly if
it holds it, and the resizer hands out whole sizes no larger than
its bound, in exact arithmetic and in that of a 64-bit `CGFloat`. The store is
taken to return the fields it was given.
-/

namespace CollectionViewWorkshop.RoundTrip

open CoreGraphics ImageResizer PartialRuns Rounding StreamItemCreator StreamItemTransformer

/-- Decoding the stored object gives the item, and encoding that gives the object. -/
def RoundTrips (item : StreamItem) : Prop :=
  ∃ object, parseObjectFromStreamItem (some item) = .ok object ∧
    streamItemFromParseObject object = item ∧
    parseObjectFromStreamItem (some (streamItemFromParseObject object)) = .ok object

theorem roundTrips_iff (item : StreamItem) :
    RoundTrips item ↔
      item.Complete ∧ FloatHolds item.size.width ∧ FloatHolds item.size.height := by
  rw [← toFloat_eq_iff, ← toFloat_eq_iff]
  constructor
  · rintro ⟨object, parsed, decoded, -⟩
    obtain ⟨data, title, size, same, rfl⟩ := (parseObject_ok_iff (some item) object).mp parsed
    cases same
    rw [decode_encoded] at decoded
    have sizes := congrArg StreamItem.size decoded
    exact ⟨⟨rfl, rfl⟩, congrArg CGSize.width sizes, congrArg CGSize.height sizes⟩
  · rintro ⟨complete, width, height⟩
    obtain ⟨object, parsed⟩ := (parseObject_isOk_iff_complete item).mpr complete
    obtain ⟨data, title, size, same, rfl⟩ := (parseObject_ok_iff (some item) object).mp parsed
    cases same
    have decoded := decode_encoded data title size
    rw [width, height] at decoded
    exact ⟨_, parsed, decoded, decoded ▸ parsed⟩

/-! Scaling with the arithmetic left open: exact, or that of a 64-bit `CGFloat`,
which rounds every result, and whose `roundf` takes a float. -/

inductive Arithmetic where
  | exact | bits64

def Arithmetic.cgFloat : Arithmetic → CGFloat → CGFloat
  | .exact, value => value
  | .bits64, value => roundSignificand 53 value

def Arithmetic.float : Arithmetic → CGFloat → CGFloat
  | .exact, value => value
  | .bits64, value => roundSignificand 24 value

variable (platform : Platform) (arithmetic : Arithmetic)

def scaleFactor (size : CGSize CGFloat) (maxDimension : CGFloat) : CGFloat :=
  if size = .zero then 1
  else arithmetic.cgFloat (maxDimension / max size.width size.height)

def roundedProduct (factor side : CGFloat) : ℤ :=
  roundHalfAway (arithmetic.float (arithmetic.cgFloat (factor * side)))

-- The other products of the transform are zero.
def scaledSizeIn (size : CGSize CGFloat) (maxDimension : CGFloat) : CGSize CGFloat :=
  let factor := scaleFactor arithmetic size maxDimension
  ⟨roundedProduct arithmetic factor size.width, roundedProduct arithmetic factor size.height⟩

theorem scaledSizeIn_exact (size : CGSize CGFloat) (maxDimension : CGFloat) :
    scaledSizeIn .exact size maxDimension = scaledSizeFromSize size maxDimension := by
  simp [scaledSizeIn, scaleFactor, roundedProduct, Arithmetic.cgFloat, Arithmetic.float,
    scaledSizeFromSize, scaleTransformForSize]

/-- Two roundings to 53 bits leave a product within reach of its 24-bit bound. -/
theorem product64_near (longest side : CGFloat) (bound : ℕ) (positive : 0 < side)
    (shorter : side ≤ longest) :
    roundSignificand 53 (roundSignificand 53 (bound / longest) * side) * (2 * 2 ^ 24 - 1) ≤
      bound * (2 * 2 ^ 24) := by
  have someLength : 0 < longest := positive.trans_le shorter
  have ratio : 0 ≤ (bound : CGFloat) / longest := by positivity
  have factor : roundSignificand 53 ((bound : CGFloat) / longest) ≤
      bound / longest * (1 + 1 / 2 ^ 53) := by
    have error := (abs_le.mp (roundSignificand_near 53 ((bound : CGFloat) / longest))).2
    rw [abs_of_nonneg ratio] at error
    linarith
  have scaled : roundSignificand 53 ((bound : CGFloat) / longest) * side ≤
      bound * (1 + 1 / 2 ^ 53) :=
    calc roundSignificand 53 ((bound : CGFloat) / longest) * side
        ≤ bound / longest * (1 + 1 / 2 ^ 53) * longest :=
          mul_le_mul factor shorter positive.le (by positivity)
      _ = bound * (1 + 1 / 2 ^ 53) := by field_simp
  have sign : 0 ≤ roundSignificand 53 ((bound : CGFloat) / longest) * side :=
    mul_nonneg (roundSignificand_nonneg 53 _ ratio) positive.le
  have error := (abs_le.mp (roundSignificand_near 53
    (roundSignificand 53 ((bound : CGFloat) / longest) * side))).2
  rw [abs_of_nonneg sign] at error
  have whole : (0 : CGFloat) ≤ bound := Nat.cast_nonneg bound
  linarith

theorem roundedProduct_inside (longest side : CGFloat) (bound : ℕ) (small : bound ≤ 2 ^ 24)
    (positive : 0 < side) (shorter : side ≤ longest) :
    0 ≤ roundedProduct arithmetic (arithmetic.cgFloat (bound / longest)) side ∧
      roundedProduct arithmetic (arithmetic.cgFloat (bound / longest)) side ≤ bound := by
  cases arithmetic with
  | exact => exact_mod_cast scaled_side_inside longest side bound positive shorter
  | bits64 =>
      have someLength : 0 < longest := positive.trans_le shorter
      have factor : 0 ≤ roundSignificand 53 ((bound : CGFloat) / longest) :=
        roundSignificand_nonneg 53 _ (by positivity)
      have product := roundSignificand_nonneg 53 _ (mul_nonneg factor positive.le)
      have narrowed : roundSignificand 24
          (roundSignificand 53 (roundSignificand 53 (bound / longest) * side)) ≤
            (bound : CGFloat) := by
        rcases product.eq_or_lt with zero | some
        · rw [← zero, roundSignificand_zero]
          exact Nat.cast_nonneg bound
        · exact roundSignificand_le_natCast 24 bound (by decide) _ some small
            (product64_near longest side bound positive shorter)
      constructor
      · exact roundHalfAway_nonneg _ (roundSignificand_nonneg 24 _ product)
      · have rounded := roundHalfAway_mono _ _ narrowed
        rwa [roundHalfAway_natCast] at rounded

/-! The size of a resized image is that of its canvas, in pixels. -/

theorem resizedImage_size (supports : BitmapFormat → Bool) (image resized : UIImage CGFloat)
    (newSize : CGSize CGFloat) (quality : CGInterpolationQuality)
    (made : resizeImageToSize supports (some image) newSize quality = some resized) :
    resized.size = ⟨(bitmapSize newSize).1, (bitmapSize newSize).2⟩ := by
  rw [resizeImageToSize_draws supports image resized newSize quality made]
  rfl

theorem canvas_inside (arithmetic : Arithmetic) (size : CGSize CGFloat) (bound : ℕ)
    (small : bound ≤ 2 ^ 24) (wide : 0 < size.width) (high : 0 < size.height) :
    (bitmapSize (scaledSizeIn arithmetic size (bound : CGFloat))).1 ≤ bound ∧
      (bitmapSize (scaledSizeIn arithmetic size (bound : CGFloat))).2 ≤ bound := by
  have columns := roundedProduct_inside arithmetic (max size.width size.height) size.width bound
    small wide (le_max_left _ _)
  have rows := roundedProduct_inside arithmetic (max size.width size.height) size.height bound
    small high (le_max_right _ _)
  simp only [scaledSizeIn, scaleFactor, if_neg (size_ne_zero size wide)]
  rw [bitmapSize_intCast _ _ columns.1 rows.1]
  omega

def resizedItem (bound : CGFloat) (pickedImage : Option (UIImage CGFloat)) : StreamItem :=
  let newSize := scaledSizeIn arithmetic (imageSize pickedImage) bound
  let resizedImage := resizeImageToSize platform.supports pickedImage newSize .high
  { StreamItem.new with
    data := resizedImage.bind fun image => platform.jpegRepresentation image imageQuality
    size := imageSize resizedImage }

theorem pickedItem_is_resized (pickedImage : Option (UIImage CGFloat)) :
    pickedItem platform pickedImage =
      resizedItem platform .exact maxImageDimension pickedImage := by
  rw [resizedItem, scaledSizeIn_exact]
  rfl

theorem resizedItem_size (image : UIImage CGFloat) (bound : CGFloat)
    (hasData : (resizedItem platform arithmetic bound (some image)).data.isSome) :
    let canvas := bitmapSize (scaledSizeIn arithmetic image.size bound)
    (resizedItem platform arithmetic bound (some image)).size = ⟨canvas.1, canvas.2⟩ := by
  cases made : resizeImageToSize platform.supports (some image)
      (scaledSizeIn arithmetic image.size bound) .high with
  | none => simp [resizedItem, imageSize, made] at hasData
  | some resized =>
      have size := resizedImage_size platform.supports image resized _ .high made
      simpa [resizedItem, imageSize, made] using size

theorem resizedItem_fits (image : UIImage CGFloat) (bound : ℕ) (small : bound ≤ 2 ^ 24)
    (wide : 0 < image.size.width) (high : 0 < image.size.height)
    (hasData : (resizedItem platform arithmetic bound (some image)).data.isSome) :
    FloatHolds (resizedItem platform arithmetic bound (some image)).size.width ∧
      FloatHolds (resizedItem platform arithmetic bound (some image)).size.height := by
  have inside := canvas_inside arithmetic image.size bound small wide high
  rw [resizedItem_size platform arithmetic image bound hasData]
  exact ⟨floatHolds_natCast _ (inside.1.trans small), floatHolds_natCast _ (inside.2.trans small)⟩

/-- The item made of a picked image has the size of its canvas, comes back from the
store as it was, and is stored under the same four fields again. -/
theorem created_item_round_trips (image : UIImage CGFloat) (bound : ℕ)
    (small : bound ≤ 2 ^ 24) (wide : 0 < image.size.width) (high : 0 < image.size.height)
    (data : NSData) (title : NSString)
    (jpeg : (resizedItem platform arithmetic bound (some image)).data = some data) :
    let item := { resizedItem platform arithmetic bound (some image) with title := some title }
    let canvas := bitmapSize (scaledSizeIn arithmetic image.size (bound : CGFloat))
    item.title = some title ∧ item.data = some data ∧ item.size = ⟨canvas.1, canvas.2⟩ ∧
      RoundTrips item := by
  intro item canvas
  have fits := resizedItem_fits platform arithmetic image bound small wide high (by simp [jpeg])
  refine ⟨rfl, jpeg, resizedItem_size platform arithmetic image bound (by simp [jpeg]),
    (roundTrips_iff item).mpr ⟨⟨?_, rfl⟩, fits⟩⟩
  simp [item, jpeg]

/-! Over a whole run of the creator. -/

theorem delivered_from_pick (events : List Callback) (creator : Creator)
    (run : (machine platform).Reaches events creator) (made : Delivery)
    (member : made ∈ creator.deliveries) (item : StreamItem) (sent : made.item = some item) :
    ∃ image ∈ events.filterMap pickedImage,
      item = { pickedItem platform image with title := made.typed } := by
  induction events using List.reverseRecOn generalizing creator with
  | nil =>
      rw [(reaches_nil_iff _ creator).mp run] at member
      cases member
  | append_singleton events callback ih =>
      obtain ⟨before, reached, taken⟩ := (reaches_snoc_iff _ events callback creator).mp run
      rw [(step_spec platform before creator callback taken).2.2] at member
      rw [List.filterMap_append]
      rcases List.mem_append.mp member with old | new
      · obtain ⟨image, picked, same⟩ := ih before reached old
        exact ⟨image, List.mem_append_left _ picked, same⟩
      · -- only a click delivers, and what the slot holds then a pick wrote
        cases callback with
        | clickedAlertButton pick text =>
            have isDelivery := List.mem_singleton.mp new
            subst isDelivery
            obtain ⟨held, heldBy, rfl⟩ := Option.map_eq_some_iff.mp sent
            rw [slot_is_latest platform events before reached] at heldBy
            obtain ⟨earlier, picker, image, later, rfl, -, rfl⟩ :=
              (slot_from_pick platform events held).mp heldBy
            exact ⟨image, by simp [pickedImage], rfl⟩
        | _ => cases new

theorem no_picked_image_no_data : (pickedItem platform none).data = none := by
  have empty : bitmapSize (scaledSizeFromSize (.zero : CGSize CGFloat) maxImageDimension) =
      (0, 0) := by decide +kernel
  simp [pickedItem, resizeImageToBoundBothDimensionsTo, resizeImageToSize,
    resizeImageWithTransform, imageSize, empty, cgBitmapContextCreate]

/-- Whatever the order of the callbacks, a delivered item the encoder accepts
comes back from the store as it was. -/
theorem delivered_item_round_trips (events : List Callback) (creator : Creator)
    (run : (machine platform).Reaches events creator)
    (sized : ∀ image, some image ∈ events.filterMap pickedImage →
      0 < image.size.width ∧ 0 < image.size.height)
    (made : Delivery) (member : made ∈ creator.deliveries) (item : StreamItem)
    (sent : made.item = some item) (complete : item.Complete) : RoundTrips item := by
  obtain ⟨picked, source, rfl⟩ :=
    delivered_from_pick platform events creator run made member item sent
  cases picked with
  | none =>
      have hasData := complete.1
      rw [no_picked_image_no_data] at hasData
      cases hasData
  | some image =>
      have size := sized image source
      rw [pickedItem_is_resized] at complete ⊢
      exact (roundTrips_iff _).mpr ⟨complete,
        resizedItem_fits platform .exact image 300 (by decide) size.1 size.2 complete.1⟩

/-- A photo of 1000 by 333 pixels, bound to the 300 points of the creator. -/
theorem created_item_round_trips_1000_by_333 :
    let image : UIImage CGFloat := ⟨.photo 0 1000 333 ⟨8, 0, 0⟩, ⟨1000, 333⟩, .up⟩
    let item := { resizedItem obliging .bits64 (300 : ℕ) (some image) with title := some "a" }
    let canvas := bitmapSize (scaledSizeIn .bits64 image.size ((300 : ℕ) : CGFloat))
    item.title = some "a" ∧ item.data = some [255] ∧ item.size = ⟨canvas.1, canvas.2⟩ ∧
      RoundTrips item :=
  created_item_round_trips obliging .bits64 ⟨.photo 0 1000 333 ⟨8, 0, 0⟩, ⟨1000, 333⟩, .up⟩ 300
    (by decide) (by norm_num) (by norm_num) [255] "a" (by decide +kernel)

end CollectionViewWorkshop.RoundTrip
