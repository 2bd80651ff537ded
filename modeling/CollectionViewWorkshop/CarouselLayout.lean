import CollectionViewWorkshop.CoreGraphics
import CollectionViewWorkshop.EvenSlots

/-!
`CarouselCollectionViewLayout` (Carousel/Layout) in exact arithmetic, with what
it reads of its collection view. `invalidated` is what `invalidateLayout` leaves
behind until the next layout pass. The attributes and the target offset, which
the source does not compute yet, are left out.
-/

namespace CollectionViewWorkshop.CarouselLayout

open CoreGraphics EvenSlots

universe u
variable {K : Type u}

structure UICollectionView (K : Type u) where
  bounds : CGRect K
  numberOfItems : ℕ
  deriving DecidableEq

structure CarouselCollectionViewLayout (K : Type u) where
  itemSize : CGSize K
  interItemSpace : K
  rightLeftMargin : K
  topBottomMargin : K
  invalidated : Bool
  deriving DecidableEq

def invalidateLayout (layout : CarouselCollectionViewLayout K) :
    CarouselCollectionViewLayout K :=
  { layout with invalidated := true }

def setItemSize [DecidableEq K] (itemSize : CGSize K)
    (layout : CarouselCollectionViewLayout K) : CarouselCollectionViewLayout K :=
  if layout.itemSize = itemSize then layout
  else invalidateLayout { layout with itemSize := itemSize }

def setInterItemSpace (interItemSpace : K) (layout : CarouselCollectionViewLayout K) :
    CarouselCollectionViewLayout K :=
  { layout with interItemSpace := interItemSpace }

def shouldInvalidateLayoutForBoundsChange [DecidableEq K] (collectionView : UICollectionView K)
    (newBounds : CGRect K) : Bool :=
  collectionView.bounds.size ≠ newBounds.size

section Layout

variable [Field K]

def prepareLayout (collectionView : UICollectionView K)
    (layout : CarouselCollectionViewLayout K) : CarouselCollectionViewLayout K :=
  let collectionViewSize := collectionView.bounds.size
  { layout with
    rightLeftMargin := (collectionViewSize.width - layout.itemSize.width) / (2 : ℕ)
    topBottomMargin := (collectionViewSize.height - layout.itemSize.height) / (2 : ℕ) }

def collectionViewContentSize (collectionView : UICollectionView K)
    (layout : CarouselCollectionViewLayout K) : CGSize K :=
  let numberOfItems : K := collectionView.numberOfItems
  let contentWidth := numberOfItems * layout.itemSize.width +
    (numberOfItems - 1) * layout.interItemSpace + (2 : ℕ) * layout.rightLeftMargin
  let contentHeight := layout.itemSize.height + (2 : ℕ) * layout.topBottomMargin
  ⟨contentWidth, contentHeight⟩

def combinedItemWidth (layout : CarouselCollectionViewLayout K) : K :=
  layout.itemSize.width + layout.interItemSpace

variable [LinearOrder K] [FloorRing K]

def firstVisibleItem (layout : CarouselCollectionViewLayout K) (rect : CGRect K) : ℤ :=
  let minimalXPosition := rect.minX - layout.rightLeftMargin
  let first := ⌊minimalXPosition / combinedItemWidth layout⌋
  if first < 0 then 0 else first

def lastVisibleItem (collectionView : UICollectionView K)
    (layout : CarouselCollectionViewLayout K) (rect : CGRect K) : ℤ :=
  let maximalXPosition := rect.maxX - layout.rightLeftMargin
  let last := ⌈maximalXPosition / combinedItemWidth layout⌉
  if last > collectionView.numberOfItems then collectionView.numberOfItems else last

end Layout

/-! Item `index` stands at the start of slot `index`, one combined width each
from the margin on. -/
section Slots

variable [Field K] [LinearOrder K]

def itemSlot (layout : CarouselCollectionViewLayout K) (index : ℤ) : Set K :=
  slot layout.rightLeftMargin (combinedItemWidth layout) index

omit [LinearOrder K] in
/-- After the last item comes the margin, and no space. -/
theorem contentWidth_from_slots (collectionView : UICollectionView K)
    (layout : CarouselCollectionViewLayout K) :
    (collectionViewContentSize collectionView layout).width =
      layout.rightLeftMargin + collectionView.numberOfItems * combinedItemWidth layout -
        layout.interItemSpace + layout.rightLeftMargin := by
  simp only [collectionViewContentSize, combinedItemWidth]
  ring

theorem minX_lt_maxX [IsStrictOrderedRing K] (rect : CGRect K) (wide : 0 < rect.size.width) :
    rect.minX < rect.maxX := by
  have further : rect.origin.x < rect.origin.x + rect.size.width := lt_add_of_pos_right _ wide
  rw [CGRect.minX, CGRect.maxX, min_eq_left further.le, max_eq_right further.le]
  exact further

variable [FloorRing K]

theorem firstVisibleItem_le_iff (layout : CarouselCollectionViewLayout K) (rect : CGRect K)
    (index : ℤ) :
    firstVisibleItem layout rect ≤ index ↔
      0 ≤ index ∧
        ⌊(rect.minX - layout.rightLeftMargin) / combinedItemWidth layout⌋ ≤ index := by
  simp only [firstVisibleItem]
  by_cases before : ⌊(rect.minX - layout.rightLeftMargin) / combinedItemWidth layout⌋ < 0
  · rw [if_pos before]
    omega
  · rw [if_neg before]
    omega

theorem lt_lastVisibleItem_iff (collectionView : UICollectionView K)
    (layout : CarouselCollectionViewLayout K) (rect : CGRect K) (index : ℤ) :
    index < lastVisibleItem collectionView layout rect ↔
      index < collectionView.numberOfItems ∧
        index < ⌈(rect.maxX - layout.rightLeftMargin) / combinedItemWidth layout⌉ := by
  simp only [lastVisibleItem]
  by_cases past : ⌈(rect.maxX - layout.rightLeftMargin) / combinedItemWidth layout⌉ >
      (collectionView.numberOfItems : ℤ)
  · rw [if_pos past]
    omega
  · rw [if_neg past]
    omega

theorem firstVisibleItem_nonneg (layout : CarouselCollectionViewLayout K) (rect : CGRect K) :
    0 ≤ firstVisibleItem layout rect :=
  ((firstVisibleItem_le_iff layout rect _).mp (le_refl _)).1

theorem lastVisibleItem_le (collectionView : UICollectionView K)
    (layout : CarouselCollectionViewLayout K) (rect : CGRect K) :
    lastVisibleItem collectionView layout rect ≤ collectionView.numberOfItems := by
  by_contra more
  have past := (lt_lastVisibleItem_iff collectionView layout rect _).mp (not_le.mp more)
  exact lt_irrefl _ past.1

variable [IsStrictOrderedRing K]

/-- The two clamps cut the slots the rectangle meets down to those of items. -/
theorem visible_iff (collectionView : UICollectionView K)
    (layout : CarouselCollectionViewLayout K) (rect : CGRect K)
    (combined : 0 < combinedItemWidth layout) (wide : 0 < rect.size.width) (index : ℤ) :
    firstVisibleItem layout rect ≤ index ∧ index < lastVisibleItem collectionView layout rect ↔
      0 ≤ index ∧ index < collectionView.numberOfItems ∧
        (itemSlot layout index ∩ Set.Ioo rect.minX rect.maxX).Nonempty := by
  rw [firstVisibleItem_le_iff, lt_lastVisibleItem_iff, itemSlot,
    slot_meets_iff _ _ _ _ index combined (minX_lt_maxX rect wide)]
  omega

/-- The visible range is exactly the items whose slots the rectangle meets, in
the placement the content size is computed for. -/
theorem visible_range_exact (collectionView : UICollectionView K)
    (layout : CarouselCollectionViewLayout K) (rect : CGRect K)
    (combined : 0 < layout.itemSize.width + layout.interItemSpace)
    (wide : 0 < rect.size.width) :
    let prepared := prepareLayout collectionView layout
    let pitch := layout.itemSize.width + layout.interItemSpace
    0 ≤ firstVisibleItem prepared rect ∧
      lastVisibleItem collectionView prepared rect ≤ collectionView.numberOfItems ∧
      (∀ index : ℤ,
        firstVisibleItem prepared rect ≤ index ∧
            index < lastVisibleItem collectionView prepared rect ↔
          0 ≤ index ∧ index < collectionView.numberOfItems ∧
            (Set.Ico (prepared.rightLeftMargin + index * pitch)
                (prepared.rightLeftMargin + (index + 1) * pitch) ∩
              Set.Ioo rect.minX rect.maxX).Nonempty) ∧
      (collectionViewContentSize collectionView prepared).width =
        prepared.rightLeftMargin + collectionView.numberOfItems * pitch -
          layout.interItemSpace + prepared.rightLeftMargin ∧
      prepared.rightLeftMargin =
        (collectionView.bounds.size.width - layout.itemSize.width) / 2 :=
  ⟨firstVisibleItem_nonneg _ rect, lastVisibleItem_le collectionView _ rect,
    visible_iff collectionView _ rect combined wide, contentWidth_from_slots collectionView _,
    by simp [prepareLayout]⟩

end Slots

/-- The carousel of 10 items in a view narrower than an item, scrolled past its end. -/
theorem visible_range_exact_overscrolled :
    let collectionView : UICollectionView ℚ := ⟨⟨⟨3000, 0⟩, ⟨200, 480⟩⟩, 10⟩
    let layout := prepareLayout collectionView ⟨⟨280, 240⟩, 20, 0, 0, true⟩
    firstVisibleItem layout collectionView.bounds = 10 ∧
      lastVisibleItem collectionView layout collectionView.bounds ≤ 10 :=
  ⟨by decide +kernel, (visible_range_exact (K := ℚ) ⟨⟨⟨3000, 0⟩, ⟨200, 480⟩⟩, 10⟩
    ⟨⟨280, 240⟩, 20, 0, 0, true⟩ ⟨⟨3000, 0⟩, ⟨200, 480⟩⟩ (by norm_num) (by norm_num)).2.1⟩

end CollectionViewWorkshop.CarouselLayout
