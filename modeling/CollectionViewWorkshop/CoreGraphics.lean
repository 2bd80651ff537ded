import Mathlib.Algebra.Order.Floor.Ring
import Mathlib.Analysis.SpecialFunctions.Trigonometric.Basic
import Mathlib.Data.Set.Function
import Mathlib.Tactic.LinearCombination

/-!
Core Graphics geometry in exact arithmetic, over any ordered field with a
floor. Points are row vectors, so `concat first second` applies `first` to a
point first, and `translate`, `rotate` and `scale` prepend to the transform
they are given. An angle is the pair of its cosine and sine; over the reals
`Turn.pi` and `Turn.piDiv2` are the angles they are named after. Null and
infinite rectangles are left out.
-/

namespace CollectionViewWorkshop.CoreGraphics

universe u
variable {K : Type u}

@[ext] structure CGPoint (K : Type u) where
  x : K
  y : K
  deriving DecidableEq

@[ext] structure CGSize (K : Type u) where
  width : K
  height : K
  deriving DecidableEq

@[ext] structure CGRect (K : Type u) where
  origin : CGPoint K
  size : CGSize K
  deriving DecidableEq

@[ext] structure CGAffineTransform (K : Type u) where
  a : K
  b : K
  c : K
  d : K
  tx : K
  ty : K
  deriving DecidableEq

structure Turn (K : Type u) where
  cos : K
  sin : K

section Ring

variable [CommRing K]

def CGPoint.zero : CGPoint K := ⟨0, 0⟩

def CGSize.zero : CGSize K := ⟨0, 0⟩

def Turn.pi : Turn K := ⟨-1, 0⟩

def Turn.piDiv2 : Turn K := ⟨0, 1⟩

def Turn.neg (turn : Turn K) : Turn K := ⟨turn.cos, -turn.sin⟩

def CGAffineTransform.identity : CGAffineTransform K := ⟨1, 0, 0, 1, 0, 0⟩

def CGAffineTransform.makeTranslation (tx ty : K) : CGAffineTransform K := ⟨1, 0, 0, 1, tx, ty⟩

def CGAffineTransform.makeScale (sx sy : K) : CGAffineTransform K := ⟨sx, 0, 0, sy, 0, 0⟩

def CGAffineTransform.makeRotation (turn : Turn K) : CGAffineTransform K :=
  ⟨turn.cos, turn.sin, -turn.sin, turn.cos, 0, 0⟩

def CGAffineTransform.concat (first second : CGAffineTransform K) : CGAffineTransform K where
  a := first.a * second.a + first.b * second.c
  b := first.a * second.b + first.b * second.d
  c := first.c * second.a + first.d * second.c
  d := first.c * second.b + first.d * second.d
  tx := first.tx * second.a + first.ty * second.c + second.tx
  ty := first.tx * second.b + first.ty * second.d + second.ty

def CGAffineTransform.translate (transform : CGAffineTransform K) (tx ty : K) :
    CGAffineTransform K :=
  (makeTranslation tx ty).concat transform

def CGAffineTransform.scale (transform : CGAffineTransform K) (sx sy : K) :
    CGAffineTransform K :=
  (makeScale sx sy).concat transform

def CGAffineTransform.rotate (transform : CGAffineTransform K) (turn : Turn K) :
    CGAffineTransform K :=
  (makeRotation turn).concat transform

def CGPoint.applyAffineTransform (point : CGPoint K) (transform : CGAffineTransform K) :
    CGPoint K :=
  ⟨transform.a * point.x + transform.c * point.y + transform.tx,
    transform.b * point.x + transform.d * point.y + transform.ty⟩

def CGSize.applyAffineTransform (size : CGSize K) (transform : CGAffineTransform K) :
    CGSize K :=
  ⟨transform.a * size.width + transform.c * size.height,
    transform.b * size.width + transform.d * size.height⟩

@[simp] theorem apply_identity (point : CGPoint K) :
    point.applyAffineTransform .identity = point := by
  simp [CGPoint.applyAffineTransform, CGAffineTransform.identity]

theorem apply_concat (point : CGPoint K) (first second : CGAffineTransform K) :
    point.applyAffineTransform (first.concat second) =
      (point.applyAffineTransform first).applyAffineTransform second := by
  ext
  · simp only [CGPoint.applyAffineTransform, CGAffineTransform.concat]
    ring
  · simp only [CGPoint.applyAffineTransform, CGAffineTransform.concat]
    ring

@[simp] theorem concat_identity (transform : CGAffineTransform K) :
    transform.concat .identity = transform := by
  ext <;> simp [CGAffineTransform.concat, CGAffineTransform.identity]

@[simp] theorem apply_translate (point : CGPoint K) (transform : CGAffineTransform K)
    (tx ty : K) :
    point.applyAffineTransform (transform.translate tx ty) =
      CGPoint.applyAffineTransform ⟨point.x + tx, point.y + ty⟩ transform := by
  rw [CGAffineTransform.translate, apply_concat]
  congr 1
  simp [CGPoint.applyAffineTransform, CGAffineTransform.makeTranslation]

@[simp] theorem apply_scale (point : CGPoint K) (transform : CGAffineTransform K)
    (sx sy : K) :
    point.applyAffineTransform (transform.scale sx sy) =
      CGPoint.applyAffineTransform ⟨sx * point.x, sy * point.y⟩ transform := by
  rw [CGAffineTransform.scale, apply_concat]
  congr 1
  simp [CGPoint.applyAffineTransform, CGAffineTransform.makeScale]

@[simp] theorem apply_rotate (point : CGPoint K) (transform : CGAffineTransform K)
    (turn : Turn K) :
    point.applyAffineTransform (transform.rotate turn) =
      CGPoint.applyAffineTransform
        ⟨turn.cos * point.x - turn.sin * point.y, turn.sin * point.x + turn.cos * point.y⟩
        transform := by
  rw [CGAffineTransform.rotate, apply_concat]
  congr 1
  simp [CGPoint.applyAffineTransform, CGAffineTransform.makeRotation, sub_eq_add_neg]

@[simp] theorem size_makeScale (size : CGSize K) (factor : K) :
    size.applyAffineTransform (.makeScale factor factor) =
      ⟨factor * size.width, factor * size.height⟩ := by
  simp [CGSize.applyAffineTransform, CGAffineTransform.makeScale]

end Ring

theorem pi_turn_real : (Turn.pi : Turn ℝ) = ⟨Real.cos Real.pi, Real.sin Real.pi⟩ := by
  simp [Turn.pi]

theorem piDiv2_turn_real :
    (Turn.piDiv2 : Turn ℝ) = ⟨Real.cos (Real.pi / 2), Real.sin (Real.pi / 2)⟩ := by
  simp [Turn.piDiv2]

section Rectangles

variable [CommRing K] [LinearOrder K]

def CGRect.minX (rect : CGRect K) : K := min rect.origin.x (rect.origin.x + rect.size.width)

def CGRect.maxX (rect : CGRect K) : K := max rect.origin.x (rect.origin.x + rect.size.width)

def CGRect.minY (rect : CGRect K) : K := min rect.origin.y (rect.origin.y + rect.size.height)

def CGRect.maxY (rect : CGRect K) : K := max rect.origin.y (rect.origin.y + rect.size.height)

def CGRect.points (rect : CGRect K) : Set (CGPoint K) :=
  {point | rect.minX ≤ point.x ∧ point.x ≤ rect.maxX ∧
    rect.minY ≤ point.y ∧ point.y ≤ rect.maxY}

/-- The smallest rectangle with integral edges around `rect`. -/
def CGRect.integral [FloorRing K] (rect : CGRect K) : CGRect K where
  origin := ⟨⌊rect.minX⌋, ⌊rect.minY⌋⟩
  size := ⟨⌈rect.maxX⌉ - ⌊rect.minX⌋, ⌈rect.maxY⌉ - ⌊rect.minY⌋⟩

variable [IsStrictOrderedRing K]

omit [IsStrictOrderedRing K] in
theorem mem_points_of_size [IsOrderedRing K] (size : CGSize K) (wide : 0 ≤ size.width)
    (high : 0 ≤ size.height) (point : CGPoint K) :
    point ∈ (CGRect.mk .zero size).points ↔
      0 ≤ point.x ∧ point.x ≤ size.width ∧ 0 ≤ point.y ∧ point.y ≤ size.height := by
  simp [CGRect.points, CGRect.minX, CGRect.maxX, CGRect.minY, CGRect.maxY, CGPoint.zero,
    wide, high]

theorem integral_natCast [FloorRing K] (width height : ℕ) :
    (CGRect.mk (.zero : CGPoint K) ⟨width, height⟩).integral =
      ⟨.zero, ⟨width, height⟩⟩ := by
  simp [CGRect.integral, CGRect.minX, CGRect.maxX, CGRect.minY, CGRect.maxY, CGPoint.zero]

end Rectangles

/-! The eight ways to lay a rectangle onto a canvas of the same shape: its
axes may be exchanged, and each axis of the canvas may then be reversed. -/
section Placement

variable [CommRing K] [LinearOrder K] [IsStrictOrderedRing K]

def place (exchange reverseX reverseY : Bool) (canvas : CGSize K) (point : CGPoint K) :
    CGPoint K :=
  let across := if exchange then point.y else point.x
  let up := if exchange then point.x else point.y
  ⟨if reverseX then canvas.width - across else across,
    if reverseY then canvas.height - up else up⟩

def unplace (exchange reverseX reverseY : Bool) (canvas : CGSize K) (point : CGPoint K) :
    CGPoint K :=
  let across := if reverseX then canvas.width - point.x else point.x
  let up := if reverseY then canvas.height - point.y else point.y
  if exchange then ⟨up, across⟩ else ⟨across, up⟩

def source (exchange : Bool) (canvas : CGSize K) : CGSize K :=
  if exchange then ⟨canvas.height, canvas.width⟩ else canvas

omit [LinearOrder K] [IsStrictOrderedRing K] in
theorem unplace_place (exchange reverseX reverseY : Bool) (canvas : CGSize K)
    (point : CGPoint K) :
    unplace exchange reverseX reverseY canvas (place exchange reverseX reverseY canvas point) =
      point := by
  cases exchange <;> cases reverseX <;> cases reverseY <;> simp [place, unplace]

omit [LinearOrder K] [IsStrictOrderedRing K] in
theorem place_unplace (exchange reverseX reverseY : Bool) (canvas : CGSize K)
    (point : CGPoint K) :
    place exchange reverseX reverseY canvas (unplace exchange reverseX reverseY canvas point) =
      point := by
  cases exchange <;> cases reverseX <;> cases reverseY <;> simp [place, unplace]

theorem mem_source_points (exchange : Bool) (canvas : CGSize K) (wide : 0 ≤ canvas.width)
    (high : 0 ≤ canvas.height) (point : CGPoint K) :
    point ∈ (CGRect.mk .zero (source exchange canvas)).points ↔
      if exchange then
        0 ≤ point.x ∧ point.x ≤ canvas.height ∧ 0 ≤ point.y ∧ point.y ≤ canvas.width
      else 0 ≤ point.x ∧ point.x ≤ canvas.width ∧ 0 ≤ point.y ∧ point.y ≤ canvas.height := by
  cases exchange with
  | false => exact mem_points_of_size canvas wide high point
  | true => exact mem_points_of_size ⟨canvas.height, canvas.width⟩ high wide point

theorem place_mapsTo (exchange reverseX reverseY : Bool) (canvas : CGSize K)
    (wide : 0 ≤ canvas.width) (high : 0 ≤ canvas.height) :
    Set.MapsTo (place exchange reverseX reverseY canvas)
      (CGRect.mk .zero (source exchange canvas)).points (CGRect.mk .zero canvas).points := by
  intro point inside
  rw [mem_source_points exchange canvas wide high] at inside
  rw [mem_points_of_size canvas wide high]
  cases exchange <;> cases reverseX <;> cases reverseY <;> simp_all [place]

theorem unplace_mapsTo (exchange reverseX reverseY : Bool) (canvas : CGSize K)
    (wide : 0 ≤ canvas.width) (high : 0 ≤ canvas.height) :
    Set.MapsTo (unplace exchange reverseX reverseY canvas)
      (CGRect.mk .zero canvas).points (CGRect.mk .zero (source exchange canvas)).points := by
  intro point inside
  rw [mem_points_of_size canvas wide high] at inside
  rw [mem_source_points exchange canvas wide high]
  cases exchange <;> cases reverseX <;> cases reverseY <;> simp_all [unplace]

theorem place_bijOn (exchange reverseX reverseY : Bool) (canvas : CGSize K)
    (wide : 0 ≤ canvas.width) (high : 0 ≤ canvas.height) :
    Set.BijOn (place exchange reverseX reverseY canvas)
      (CGRect.mk .zero (source exchange canvas)).points (CGRect.mk .zero canvas).points := by
  have inverse : Set.InvOn (unplace exchange reverseX reverseY canvas)
      (place exchange reverseX reverseY canvas)
      (CGRect.mk .zero (source exchange canvas)).points (CGRect.mk .zero canvas).points :=
    ⟨fun point _ => unplace_place exchange reverseX reverseY canvas point,
      fun point _ => place_unplace exchange reverseX reverseY canvas point⟩
  exact inverse.bijOn (place_mapsTo exchange reverseX reverseY canvas wide high)
    (unplace_mapsTo exchange reverseX reverseY canvas wide high)

end Placement

end CollectionViewWorkshop.CoreGraphics
