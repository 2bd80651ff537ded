import CollectionViewWorkshop.CoreGraphics
import CollectionViewWorkshop.Rounding

/-!
`ImageResizer` (Utils/ImageResizer.m). A picture is symbolic: a photo, or what
was drawn on a canvas with which transform, so the model says where every
point goes and not which colour it gets. `supports` stands for the pixel
formats Core Graphics can make a bitmap context for. Arithmetic is exact:
`roundf` rounds halves away from zero and does not narrow to a float first.
A message to a nil image answers zero.
-/

namespace CollectionViewWorkshop.ImageResizer

open CoreGraphics Rounding

universe u
variable {K : Type u}

inductive UIImageOrientation where
  | up | down | left | right | upMirrored | downMirrored | leftMirrored | rightMirrored
  deriving DecidableEq

inductive CGInterpolationQuality where
  | default | none | low | medium | high
  deriving DecidableEq

structure BitmapFormat where
  bitsPerComponent : ℕ
  colorSpace : ℕ
  bitmapInfo : ℕ
  deriving DecidableEq

inductive CGImage (K : Type u) where
  | photo (name width height : ℕ) (format : BitmapFormat)
  | blank (width height : ℕ) (format : BitmapFormat)
  | drawn (canvas : CGImage K) (ctm : CGAffineTransform K)
      (quality : CGInterpolationQuality) (rect : CGRect K) (image : CGImage K)
  deriving DecidableEq

def CGImage.width : CGImage K → ℕ
  | .photo _ width _ _ => width
  | .blank width _ _ => width
  | .drawn canvas _ _ _ _ => canvas.width

def CGImage.height : CGImage K → ℕ
  | .photo _ _ height _ => height
  | .blank _ height _ => height
  | .drawn canvas _ _ _ _ => canvas.height

def CGImage.format : CGImage K → BitmapFormat
  | .photo _ _ _ format => format
  | .blank _ _ format => format
  | .drawn canvas _ _ _ _ => canvas.format

structure UIImage (K : Type u) where
  cgImage : CGImage K
  size : CGSize K
  imageOrientation : UIImageOrientation
  deriving DecidableEq

structure CGContext (K : Type u) where
  contents : CGImage K
  ctm : CGAffineTransform K
  interpolationQuality : CGInterpolationQuality

section Bitmaps

variable [CommRing K]

/-- A context of no width or no height cannot be made. -/
def cgBitmapContextCreate (supports : BitmapFormat → Bool) (width height : ℕ)
    (format : BitmapFormat) : Option (CGContext K) :=
  if width = 0 ∨ height = 0 then none
  else if supports format then some ⟨.blank width height format, .identity, .default⟩
  else none

def CGContext.concatCTM (context : CGContext K) (transform : CGAffineTransform K) :
    CGContext K :=
  { context with ctm := transform.concat context.ctm }

def CGContext.setInterpolationQuality (context : CGContext K)
    (quality : CGInterpolationQuality) : CGContext K :=
  { context with interpolationQuality := quality }

def CGContext.drawImage (context : CGContext K) (rect : CGRect K) :
    Option (CGImage K) → CGContext K
  | none => context
  | some image =>
      let quality := context.interpolationQuality
      { context with contents := .drawn context.contents context.ctm quality rect image }

def imageWithCGImage (image : CGImage K) : UIImage K :=
  ⟨image, ⟨image.width, image.height⟩, .up⟩

end Bitmaps

section Scaling

variable [Field K] [LinearOrder K] [FloorRing K]

def scaleTransformForSize (size : CGSize K) (maxDimension : K) : CGAffineTransform K :=
  let scaleFactor := if size = .zero then 1 else maxDimension / max size.width size.height
  .makeScale scaleFactor scaleFactor

def scaledSizeFromSize (size : CGSize K) (maxDimension : K) : CGSize K :=
  let scaled := size.applyAffineTransform (scaleTransformForSize size maxDimension)
  ⟨roundHalfAway scaled.width, roundHalfAway scaled.height⟩

end Scaling

section Drawing

variable [Field K]

/-- The first switch of `transformForOrientation:image:`. -/
def turnForOrientation (newSize : CGSize K) : UIImageOrientation → CGAffineTransform K
  | .down | .downMirrored =>
      (CGAffineTransform.identity.translate newSize.width newSize.height).rotate .pi
  | .left | .leftMirrored =>
      (CGAffineTransform.identity.translate newSize.width 0).rotate .piDiv2
  | .right | .rightMirrored =>
      (CGAffineTransform.identity.translate 0 newSize.height).rotate Turn.piDiv2.neg
  | _ => .identity

/-- The second switch, which continues from the transform of the first. -/
def mirrorForOrientation (newSize : CGSize K) (transform : CGAffineTransform K) :
    UIImageOrientation → CGAffineTransform K
  | .upMirrored | .downMirrored => (transform.translate newSize.width 0).scale (-1) 1
  | .leftMirrored | .rightMirrored => (transform.translate newSize.height 0).scale (-1) 1
  | _ => transform

def transformForOrientation (newSize : CGSize K) (orientation : UIImageOrientation) :
    CGAffineTransform K :=
  mirrorForOrientation newSize (turnForOrientation newSize orientation) orientation

def drawTransposed : UIImageOrientation → Bool
  | .left | .leftMirrored | .right | .rightMirrored => true
  | _ => false

variable [LinearOrder K] [FloorRing K]

def newRect (newSize : CGSize K) : CGRect K :=
  (CGRect.mk .zero newSize).integral

/-- The two `size_t` arguments of `CGBitmapContextCreate`. -/
def bitmapSize (newSize : CGSize K) : ℕ × ℕ :=
  (⌊(newRect newSize).size.width⌋.toNat, ⌊(newRect newSize).size.height⌋.toNat)

def drawRect (newSize : CGSize K) (transpose : Bool) : CGRect K :=
  if transpose then ⟨.zero, ⟨(newRect newSize).size.height, (newRect newSize).size.width⟩⟩
  else newRect newSize

def resizeImageWithTransform (supports : BitmapFormat → Bool) (image : Option (UIImage K))
    (newSize : CGSize K) (transform : CGAffineTransform K) (transpose : Bool)
    (quality : CGInterpolationQuality) : Option (UIImage K) :=
  let imageRef := image.map UIImage.cgImage
  let format := (imageRef.map CGImage.format).getD ⟨0, 0, 0⟩
  let bitmap := cgBitmapContextCreate supports (bitmapSize newSize).1 (bitmapSize newSize).2 format
  let drawn := bitmap.map fun context =>
    ((context.concatCTM transform).setInterpolationQuality quality).drawImage
      (drawRect newSize transpose) imageRef
  drawn.map fun context => imageWithCGImage context.contents

def imageOrientation (image : Option (UIImage K)) : UIImageOrientation :=
  (image.map UIImage.imageOrientation).getD .up

def imageSize (image : Option (UIImage K)) : CGSize K :=
  (image.map UIImage.size).getD .zero

def resizeImageToSize (supports : BitmapFormat → Bool) (image : Option (UIImage K))
    (newSize : CGSize K) (quality : CGInterpolationQuality) : Option (UIImage K) :=
  resizeImageWithTransform supports image newSize
    (transformForOrientation newSize (imageOrientation image))
    (drawTransposed (imageOrientation image)) quality

def resizeImageToBoundBothDimensionsTo (supports : BitmapFormat → Bool)
    (image : Option (UIImage K)) (maxImageDimension : K) : Option (UIImage K) :=
  resizeImageToSize supports image (scaledSizeFromSize (imageSize image) maxImageDimension) .high

end Drawing

section Upright

variable [Field K] [LinearOrder K]

/-! What an orientation asks for, said without the transform: mirror left and
right if it is a mirrored one, turn about the origin, and move the turned
rectangle back so that its lower left corner is the origin. -/

def UIImageOrientation.mirrored : UIImageOrientation → Bool
  | .upMirrored | .downMirrored | .leftMirrored | .rightMirrored => true
  | _ => false

def UIImageOrientation.turn : UIImageOrientation → Turn K
  | .up | .upMirrored => ⟨1, 0⟩
  | .down | .downMirrored => ⟨-1, 0⟩
  | .left | .leftMirrored => ⟨0, 1⟩
  | .right | .rightMirrored => ⟨0, -1⟩

def mirrorLeftRight (point : CGPoint K) : CGPoint K := ⟨-point.x, point.y⟩

def turnAboutOrigin (turn : Turn K) (point : CGPoint K) : CGPoint K :=
  ⟨turn.cos * point.x - turn.sin * point.y, turn.sin * point.x + turn.cos * point.y⟩

def mirroredAndTurned (orientation : UIImageOrientation) (point : CGPoint K) : CGPoint K :=
  turnAboutOrigin orientation.turn
    (if orientation.mirrored then mirrorLeftRight point else point)

def lowerLeft (move : CGPoint K → CGPoint K) (rect : CGRect K) : CGPoint K :=
  let first := move ⟨rect.minX, rect.minY⟩
  let second := move ⟨rect.maxX, rect.minY⟩
  let third := move ⟨rect.minX, rect.maxY⟩
  let fourth := move ⟨rect.maxX, rect.maxY⟩
  ⟨min (min first.x second.x) (min third.x fourth.x),
    min (min first.y second.y) (min third.y fourth.y)⟩

def requiredPoint (orientation : UIImageOrientation) (rect : CGRect K) (point : CGPoint K) :
    CGPoint K :=
  let moved := mirroredAndTurned orientation point
  let corner := lowerLeft (mirroredAndTurned orientation) rect
  ⟨moved.x - corner.x, moved.y - corner.y⟩

def reversesX : UIImageOrientation → Bool
  | .upMirrored | .down | .left | .leftMirrored => true
  | _ => false

def reversesY : UIImageOrientation → Bool
  | .down | .downMirrored | .leftMirrored | .right => true
  | _ => false

omit [LinearOrder K] in
theorem transform_is_place (newSize : CGSize K) (orientation : UIImageOrientation)
    (point : CGPoint K) :
    point.applyAffineTransform (transformForOrientation newSize orientation) =
      place (drawTransposed orientation) (reversesX orientation) (reversesY orientation)
        newSize point := by
  cases orientation <;>
    simp [transformForOrientation, mirrorForOrientation, turnForOrientation, drawTransposed,
      reversesX, reversesY, place, Turn.pi, Turn.piDiv2, Turn.neg, neg_add_eq_sub]

variable [IsStrictOrderedRing K]

theorem required_is_place (newSize : CGSize K) (wide : 0 ≤ newSize.width)
    (high : 0 ≤ newSize.height) (orientation : UIImageOrientation) (point : CGPoint K) :
    requiredPoint orientation ⟨.zero, source (drawTransposed orientation) newSize⟩ point =
      place (drawTransposed orientation) (reversesX orientation) (reversesY orientation)
        newSize point := by
  cases orientation <;>
    simp [requiredPoint, lowerLeft, mirroredAndTurned, turnAboutOrigin, mirrorLeftRight,
      UIImageOrientation.mirrored, UIImageOrientation.turn, drawTransposed, reversesX,
      reversesY, place, source, CGRect.minX, CGRect.maxX, CGRect.minY, CGRect.maxY,
      CGPoint.zero, wide, high, neg_add_eq_sub]

variable [FloorRing K]

theorem drawRect_natCast (width height : ℕ) (transpose : Bool) :
    drawRect (⟨width, height⟩ : CGSize K) transpose =
      ⟨.zero, source transpose ⟨width, height⟩⟩ := by
  cases transpose <;> simp [drawRect, newRect, integral_natCast, source]

/-- On a whole canvas the transform lays the draw rectangle one-to-one onto
the canvas, every point where the orientation requires it. -/
theorem transform_draws_upright (width height : ℕ) (orientation : UIImageOrientation) :
    let newSize : CGSize K := ⟨width, height⟩
    let transform := transformForOrientation newSize orientation
    let rect := drawRect newSize (drawTransposed orientation)
    rect = ⟨.zero, if drawTransposed orientation then ⟨height, width⟩ else ⟨width, height⟩⟩ ∧
      Set.BijOn (fun point => point.applyAffineTransform transform) rect.points
        {point | 0 ≤ point.x ∧ point.x ≤ (width : K) ∧ 0 ≤ point.y ∧ point.y ≤ (height : K)} ∧
      ∀ point, point.applyAffineTransform transform = requiredPoint orientation rect point := by
  intro newSize transform rect
  have wide : 0 ≤ newSize.width := Nat.cast_nonneg width
  have high : 0 ≤ newSize.height := Nat.cast_nonneg height
  have rectIs : rect = ⟨.zero, source (drawTransposed orientation) newSize⟩ :=
    drawRect_natCast width height (drawTransposed orientation)
  have canvas : (CGRect.mk .zero newSize).points =
      {point | 0 ≤ point.x ∧ point.x ≤ (width : K) ∧ 0 ≤ point.y ∧ point.y ≤ (height : K)} :=
    Set.ext fun point => mem_points_of_size newSize wide high point
  have moved : (fun point : CGPoint K => point.applyAffineTransform transform) =
      place (drawTransposed orientation) (reversesX orientation) (reversesY orientation)
        newSize :=
    funext fun point => transform_is_place newSize orientation point
  refine ⟨rectIs, ?_, ?_⟩
  · rw [moved, rectIs, ← canvas]
    exact place_bijOn _ _ _ newSize wide high
  · intro point
    rw [rectIs, required_is_place newSize wide high, ← transform_is_place]

omit [IsStrictOrderedRing K] in
/-- A resized image is drawn once, with this transform and into this rectangle. -/
theorem resizeImageToSize_draws (supports : BitmapFormat → Bool) (image resized : UIImage K)
    (newSize : CGSize K) (quality : CGInterpolationQuality)
    (made : resizeImageToSize supports (some image) newSize quality = some resized) :
    resized = imageWithCGImage (.drawn
      (.blank (bitmapSize newSize).1 (bitmapSize newSize).2 image.cgImage.format)
      (transformForOrientation newSize image.imageOrientation) quality
      (drawRect newSize (drawTransposed image.imageOrientation)) image.cgImage) := by
  simp only [resizeImageToSize, resizeImageWithTransform, Option.map_some, Option.getD_some,
    Option.map_map, Option.map_eq_some_iff, imageOrientation] at made
  obtain ⟨context, created, rfl⟩ := made
  unfold cgBitmapContextCreate at created
  split at created
  · cases created
  · split at created
    · cases created
      simp [CGContext.concatCTM, CGContext.setInterpolationQuality, CGContext.drawImage]
    · cases created

theorem transform_draws_upright_leftMirrored :
    let transform := transformForOrientation (⟨3, 2⟩ : CGSize ℚ) .leftMirrored
    CGPoint.applyAffineTransform ⟨2, 3⟩ transform = ⟨0, 0⟩ ∧
      CGPoint.applyAffineTransform ⟨2, 3⟩ transform =
        requiredPoint .leftMirrored ⟨.zero, ⟨2, 3⟩⟩ ⟨2, 3⟩ := by
  have drawn := transform_draws_upright (K := ℚ) 3 2 .leftMirrored
  have rectIs := drawn.1
  have placed := drawn.2.2 ⟨2, 3⟩
  rw [rectIs] at placed
  exact ⟨by norm_num [transform_is_place, place, drawTransposed, reversesX, reversesY],
    by simpa [drawTransposed] using placed⟩

end Upright

section Canvas

variable [Field K] [LinearOrder K] [IsStrictOrderedRing K] [FloorRing K]

omit [IsStrictOrderedRing K] in
theorem scaledSize_of_present (size : CGSize K) (bound : K) (present : size ≠ .zero) :
    scaledSizeFromSize size bound =
      ⟨roundHalfAway (bound / max size.width size.height * size.width),
        roundHalfAway (bound / max size.width size.height * size.height)⟩ := by
  simp [scaledSizeFromSize, scaleTransformForSize, present]

omit [IsStrictOrderedRing K] [FloorRing K] in
theorem size_ne_zero (size : CGSize K) (wide : 0 < size.width) : size ≠ .zero := by
  intro empty
  rw [empty] at wide
  exact lt_irrefl 0 wide

omit [IsStrictOrderedRing K] in
theorem scaledSize_of_pos (size : CGSize K) (bound : K) (wide : 0 < size.width) :
    scaledSizeFromSize size bound =
      ⟨roundHalfAway (bound / max size.width size.height * size.width),
        roundHalfAway (bound / max size.width size.height * size.height)⟩ :=
  scaledSize_of_present size bound (size_ne_zero size wide)

theorem bitmapSize_intCast (width height : ℤ) (wide : 0 ≤ width) (high : 0 ≤ height) :
    bitmapSize (⟨width, height⟩ : CGSize K) = (width.toNat, height.toNat) := by
  obtain ⟨columns, rfl⟩ := Int.eq_ofNat_of_zero_le wide
  obtain ⟨rows, rfl⟩ := Int.eq_ofNat_of_zero_le high
  have rect := integral_natCast (K := K) columns rows
  simp only [bitmapSize, newRect, Int.cast_natCast, rect, Int.floor_natCast]

/-- A scaled side keeps a pixel exactly if it is at least half a pixel long. -/
theorem scaled_side_pos_iff (longest side bound : ℕ) (positive : 1 ≤ longest) :
    1 ≤ roundHalfAway ((bound : K) / longest * side) ↔ longest ≤ 2 * bound * side := by
  have someLength : (0 : K) < longest := by exact_mod_cast positive
  rw [one_le_roundHalfAway_iff _ (by positivity), div_mul_eq_mul_div, le_div_iff₀ someLength,
    ← Nat.cast_le (α := K)]
  push_cast
  constructor
  · intro half
    linarith
  · intro half
    linarith

-- The longer side becomes the bound itself, so the shorter one decides.
theorem bitmap_nonempty_iff (width height bound : ℕ) (wide : 1 ≤ width) (high : 1 ≤ height) :
    (1 ≤ (bitmapSize (scaledSizeFromSize (⟨width, height⟩ : CGSize K) bound)).1 ∧
      1 ≤ (bitmapSize (scaledSizeFromSize (⟨width, height⟩ : CGSize K) bound)).2) ↔
      max width height ≤ 2 * bound * min width height := by
  have positiveWidth : (0 : K) < width := by exact_mod_cast wide
  have longest : max (width : K) height = ((max width height : ℕ) : K) := by push_cast; rfl
  have columns := roundHalfAway_nonneg ((bound : K) / (max width height : ℕ) * width)
    (by positivity)
  have rows := roundHalfAway_nonneg ((bound : K) / (max width height : ℕ) * height)
    (by positivity)
  have across := scaled_side_pos_iff (K := K) (max width height) width bound
    (wide.trans (le_max_left _ _))
  have up := scaled_side_pos_iff (K := K) (max width height) height bound
    (wide.trans (le_max_left _ _))
  rw [scaledSize_of_pos _ _ positiveWidth]
  simp only [longest]
  rw [bitmapSize_intCast _ _ columns rows]
  constructor
  · rintro ⟨someColumn, someRow⟩
    have first := across.mp (by omega)
    have second := up.mp (by omega)
    rcases Nat.le_total width height with tall | broad
    · rwa [min_eq_left tall]
    · rwa [min_eq_right broad]
  · intro ratio
    have first := across.mpr (ratio.trans (Nat.mul_le_mul_left _ (min_le_left _ _)))
    have second := up.mpr (ratio.trans (Nat.mul_le_mul_left _ (min_le_right _ _)))
    omega

omit [LinearOrder K] [IsStrictOrderedRing K] [FloorRing K] in
theorem bitmapContext_isSome_iff (supports : BitmapFormat → Bool) (width height : ℕ)
    (format : BitmapFormat) :
    (cgBitmapContextCreate (K := K) supports width height format).isSome ↔
      (1 ≤ width ∧ 1 ≤ height) ∧ supports format = true := by
  unfold cgBitmapContextCreate
  by_cases empty : width = 0 ∨ height = 0
  · simp only [if_pos empty, Option.isSome_none, Bool.false_eq_true, false_iff]
    omega
  · rw [if_neg empty]
    split
    · rename_i supported
      simp only [Option.isSome_some, supported, and_true, true_iff]
      omega
    · rename_i unsupported
      simp [unsupported]

omit [IsStrictOrderedRing K] in
theorem resizeImage_isSome_iff (supports : BitmapFormat → Bool) (image : UIImage K)
    (bound : K) :
    (resizeImageToBoundBothDimensionsTo supports (some image) bound).isSome ↔
      (1 ≤ (bitmapSize (scaledSizeFromSize image.size bound)).1 ∧
        1 ≤ (bitmapSize (scaledSizeFromSize image.size bound)).2) ∧
          supports image.cgImage.format = true := by
  rw [← bitmapContext_isSome_iff (K := K) supports _ _ image.cgImage.format]
  simp [resizeImageToBoundBothDimensionsTo, resizeImageToSize, resizeImageWithTransform,
    imageSize]

/-- The canvas is empty exactly for pictures whose longer side is more than
`2 * bound` times the shorter one, and an image comes back exactly from a canvas
that is not and has a format there is a bitmap for. -/
theorem canvas_nonempty_iff (supports : BitmapFormat → Bool) (image : UIImage K)
    (width height bound : ℕ) (wide : 1 ≤ width) (high : 1 ≤ height)
    (size : image.size = ⟨width, height⟩) :
    ((1 ≤ (bitmapSize (scaledSizeFromSize image.size (bound : K))).1 ∧
        1 ≤ (bitmapSize (scaledSizeFromSize image.size (bound : K))).2) ↔
      max width height ≤ 2 * bound * min width height) ∧
      ((resizeImageToBoundBothDimensionsTo supports (some image) (bound : K)).isSome ↔
        max width height ≤ 2 * bound * min width height ∧
          supports image.cgImage.format = true) := by
  have canvas := bitmap_nonempty_iff (K := K) width height bound wide high
  rw [← size] at canvas
  exact ⟨canvas, (resizeImage_isSome_iff supports image bound).trans (and_congr_left' canvas)⟩

theorem canvas_nonempty_iff_4_by_3 :
    let image : UIImage ℚ := ⟨.photo 0 4 3 ⟨8, 0, 0⟩, ⟨4, 3⟩, .up⟩
    let supports : BitmapFormat → Bool := fun _ => true
    (resizeImageToBoundBothDimensionsTo supports (some image) ((300 : ℕ) : ℚ)).isSome ↔
      max 4 3 ≤ 2 * 300 * min 4 3 ∧ supports image.cgImage.format = true :=
  (canvas_nonempty_iff (K := ℚ) (fun _ => true) ⟨.photo 0 4 3 ⟨8, 0, 0⟩, ⟨4, 3⟩, .up⟩
    4 3 300 (by decide) (by decide) (by norm_num)).2

theorem canvas_of_1000_by_1_empty :
    bitmapSize (scaledSizeFromSize (⟨1000, 1⟩ : CGSize ℚ) 300) = (300, 0) ∧
      resizeImageToBoundBothDimensionsTo (fun _ => true)
        (some ⟨.photo 0 1000 1 ⟨8, 0, 0⟩, ⟨1000, 1⟩, .up⟩) (300 : ℚ) = none := by
  decide +kernel

/-- The scaled size is whole, has the bound as its longer side, and keeps each
side within half a point of the exact proportion and in its order. -/
structure ScaledToFit (size scaled : CGSize K) (bound : ℕ) : Prop where
  whole : ∃ width height : ℤ, scaled = ⟨width, height⟩
  longerWidth : size.height ≤ size.width → scaled.width = bound
  longerHeight : size.width ≤ size.height → scaled.height = bound
  widthInside : 0 ≤ scaled.width ∧ scaled.width ≤ bound
  heightInside : 0 ≤ scaled.height ∧ scaled.height ≤ bound
  widthNear : |scaled.width - bound * size.width / max size.width size.height| ≤ 1 / 2
  heightNear : |scaled.height - bound * size.height / max size.width size.height| ≤ 1 / 2
  taller : size.width ≤ size.height → scaled.width ≤ scaled.height
  wider : size.height ≤ size.width → scaled.height ≤ scaled.width

theorem longest_side_scaled (longest : K) (bound : ℕ) (positive : 0 < longest) :
    (roundHalfAway ((bound : K) / longest * longest) : K) = bound := by
  rw [div_mul_cancel₀ _ positive.ne', roundHalfAway_natCast, Int.cast_natCast]

theorem scaled_side_mono (longest first second : K) (bound : ℕ) (positive : 0 < longest)
    (ordered : first ≤ second) :
    (roundHalfAway ((bound : K) / longest * first) : K) ≤
      roundHalfAway ((bound : K) / longest * second) := by
  have scaled : (bound : K) / longest * first ≤ bound / longest * second :=
    mul_le_mul_of_nonneg_left ordered (by positivity)
  exact_mod_cast roundHalfAway_mono _ _ scaled

theorem scaled_side_inside (longest side : K) (bound : ℕ) (positive : 0 < side)
    (shorter : side ≤ longest) :
    (0 : K) ≤ roundHalfAway ((bound : K) / longest * side) ∧
      (roundHalfAway ((bound : K) / longest * side) : K) ≤ bound := by
  have someLength : 0 < longest := positive.trans_le shorter
  constructor
  · exact_mod_cast roundHalfAway_nonneg ((bound : K) / longest * side) (by positivity)
  · have below := scaled_side_mono longest side longest bound someLength shorter
    rwa [longest_side_scaled longest bound someLength] at below

theorem scaled_side_near (longest side : K) (bound : ℕ) :
    |(roundHalfAway ((bound : K) / longest * side) : K) - bound * side / longest| ≤ 1 / 2 := by
  rw [mul_div_right_comm]
  exact roundHalfAway_near _

theorem scaledSize_toFit (size : CGSize K) (bound : ℕ) (wide : 0 < size.width)
    (high : 0 < size.height) : ScaledToFit size (scaledSizeFromSize size (bound : K)) bound := by
  have longest : 0 < max size.width size.height := lt_max_of_lt_left wide
  rw [scaledSize_of_pos size bound wide]
  constructor
  case whole => exact ⟨_, _, rfl⟩
  case longerWidth =>
    intro wider
    rw [max_eq_left wider, longest_side_scaled size.width bound wide]
  case longerHeight =>
    intro taller
    rw [max_eq_right taller, longest_side_scaled size.height bound high]
  case widthInside => exact scaled_side_inside _ size.width bound wide (le_max_left _ _)
  case heightInside => exact scaled_side_inside _ size.height bound high (le_max_right _ _)
  case widthNear => exact scaled_side_near _ size.width bound
  case heightNear => exact scaled_side_near _ size.height bound
  case taller => exact scaled_side_mono _ size.width size.height bound longest
  case wider => exact scaled_side_mono _ size.height size.width bound longest

/-- A whole size whose longer side is the bound already is left alone. -/
theorem scaledSize_of_fitted (width height : ℤ) (bound : ℕ) (positive : 1 ≤ bound)
    (longest : max (width : K) height = bound) :
    scaledSizeFromSize (⟨width, height⟩ : CGSize K) (bound : K) = ⟨width, height⟩ := by
  have someBound : (bound : K) ≠ 0 := by exact_mod_cast (by omega : bound ≠ 0)
  have present : (⟨width, height⟩ : CGSize K) ≠ .zero := by
    intro empty
    have sides := CGSize.ext_iff.mp empty
    simp only [CGSize.zero] at sides
    rw [sides.1, sides.2, max_self] at longest
    exact someBound longest.symm
  rw [scaledSize_of_present _ _ present]
  simp only [longest, div_self someBound, one_mul, roundHalfAway_intCast]

theorem scaledSize_idempotent (size : CGSize K) (bound : ℕ) (positive : 1 ≤ bound)
    (wide : 0 < size.width) (high : 0 < size.height) :
    scaledSizeFromSize (scaledSizeFromSize size (bound : K)) (bound : K) =
      scaledSizeFromSize size (bound : K) := by
  have fit := scaledSize_toFit size bound wide high
  obtain ⟨width, height, same⟩ := fit.whole
  have longest : max (width : K) height = bound := by
    have inside := fit.widthInside.2
    have below := fit.heightInside.2
    rcases le_total size.width size.height with taller | wider
    · have longer := fit.longerHeight taller
      simp only [same] at inside longer
      rw [longer, max_eq_right inside]
    · have longer := fit.longerWidth wider
      simp only [same] at below longer
      rw [longer, max_eq_left below]
  rw [same]
  exact scaledSize_of_fitted width height bound positive longest

theorem scaledSize_fits_and_is_stable (size : CGSize K) (bound : ℕ) (positive : 1 ≤ bound)
    (wide : 0 < size.width) (high : 0 < size.height) :
    ScaledToFit size (scaledSizeFromSize size (bound : K)) bound ∧
      scaledSizeFromSize (scaledSizeFromSize size (bound : K)) (bound : K) =
        scaledSizeFromSize size (bound : K) :=
  ⟨scaledSize_toFit size bound wide high, scaledSize_idempotent size bound positive wide high⟩

end Canvas

theorem scaledSize_fits_and_is_stable_1000_by_333 :
    ScaledToFit ⟨1000, 333⟩ (scaledSizeFromSize (⟨1000, 333⟩ : CGSize ℚ) (300 : ℕ)) 300 ∧
      scaledSizeFromSize (scaledSizeFromSize (⟨1000, 333⟩ : CGSize ℚ) (300 : ℕ)) (300 : ℕ) =
        scaledSizeFromSize (⟨1000, 333⟩ : CGSize ℚ) (300 : ℕ) :=
  scaledSize_fits_and_is_stable (K := ℚ) ⟨1000, 333⟩ 300 (by decide) (by norm_num) (by norm_num)

end CollectionViewWorkshop.ImageResizer
