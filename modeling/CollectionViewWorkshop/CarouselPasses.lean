import CollectionViewWorkshop.CarouselLayout
import CollectionViewWorkshop.PartialRuns

/-!
The carousel's content size over layout passes. The collection view keeps the
size it got at its last pass, and a pass asks the layout again only if it was
invalidated since. `laidOutSpace` is recorded for the laws only: the space the
layout had when it was last asked.
-/

namespace CollectionViewWorkshop.CarouselPasses

open CarouselLayout CoreGraphics PartialRuns

universe u
variable {K : Type u}

structure Screen (K : Type u) where
  layout : CarouselCollectionViewLayout K
  collectionView : UICollectionView K
  contentSize : CGSize K
  laidOutSpace : K
  deriving DecidableEq

inductive Event (K : Type u) where
  | setItemSize (itemSize : CGSize K)
  | setInterItemSpace (interItemSpace : K)
  | boundsChange (newBounds : CGRect K)
  | reloadData (numberOfItems : ℕ)
  | layoutPass

def boundsChange [DecidableEq K] (newBounds : CGRect K) (screen : Screen K) : Screen K :=
  { screen with
    layout :=
      if shouldInvalidateLayoutForBoundsChange screen.collectionView newBounds then
        invalidateLayout screen.layout
      else screen.layout
    collectionView := { screen.collectionView with bounds := newBounds } }

def reloadData (numberOfItems : ℕ) (screen : Screen K) : Screen K :=
  { screen with
    layout := invalidateLayout screen.layout
    collectionView := { screen.collectionView with numberOfItems := numberOfItems } }

variable [Field K]

def freshContentSize (screen : Screen K) : CGSize K :=
  collectionViewContentSize screen.collectionView
    (prepareLayout screen.collectionView screen.layout)

def layoutPass (screen : Screen K) : Screen K :=
  if screen.layout.invalidated then
    { screen with
      layout := { prepareLayout screen.collectionView screen.layout with invalidated := false }
      contentSize := freshContentSize screen
      laidOutSpace := screen.layout.interItemSpace }
  else screen

def step [DecidableEq K] (screen : Screen K) : Event K → Screen K
  | .setItemSize itemSize => { screen with layout := setItemSize itemSize screen.layout }
  | .setInterItemSpace interItemSpace =>
      { screen with layout := setInterItemSpace interItemSpace screen.layout }
  | .boundsChange newBounds => boundsChange newBounds screen
  | .reloadData numberOfItems => reloadData numberOfItems screen
  | .layoutPass => layoutPass screen

def machine [DecidableEq K] : Machine (Screen K) (Event K) where
  initial := ⟨⟨.zero, 0, 0, 0, true⟩, ⟨⟨.zero, .zero⟩, 0⟩, .zero, 0⟩
  step screen event := some (step screen event)

/-! Of the four inputs only the space can change behind a valid layout. -/

/-- What the layout would answer now if it had another space. -/
def contentSizeWithSpace (interItemSpace : K) (screen : Screen K) : CGSize K :=
  freshContentSize { screen with layout := setInterItemSpace interItemSpace screen.layout }

def KeptWhileValid (screen : Screen K) : Prop :=
  screen.layout.invalidated = false →
    screen.contentSize = contentSizeWithSpace screen.laidOutSpace screen

theorem keptWhileValid_setItemSize [DecidableEq K] (itemSize : CGSize K) (screen : Screen K)
    (kept : KeptWhileValid screen) :
    KeptWhileValid { screen with layout := setItemSize itemSize screen.layout } := by
  unfold setItemSize
  by_cases same : screen.layout.itemSize = itemSize
  · rw [if_pos same]
    exact kept
  · rw [if_neg same]
    rintro ⟨⟩

theorem keptWhileValid_boundsChange [DecidableEq K] (newBounds : CGRect K) (screen : Screen K)
    (kept : KeptWhileValid screen) : KeptWhileValid (boundsChange newBounds screen) := by
  by_cases same : screen.collectionView.bounds.size = newBounds.size
  · intro valid
    have answered := kept (by simpa [boundsChange, shouldInvalidateLayoutForBoundsChange, same]
      using valid)
    simpa [contentSizeWithSpace, freshContentSize, collectionViewContentSize, prepareLayout,
      boundsChange, shouldInvalidateLayoutForBoundsChange, same] using answered
  · intro valid
    simp [boundsChange, shouldInvalidateLayoutForBoundsChange, same, invalidateLayout] at valid

theorem keptWhileValid_layoutPass (screen : Screen K) (kept : KeptWhileValid screen) :
    KeptWhileValid (layoutPass screen) := by
  unfold layoutPass
  by_cases asked : screen.layout.invalidated
  · rw [if_pos asked]
    exact fun _ => rfl
  · rw [if_neg asked]
    exact kept

theorem keptWhileValid_step [DecidableEq K] (event : Event K) (before : Screen K)
    (kept : KeptWhileValid before) : KeptWhileValid (step before event) := by
  cases event with
  | setItemSize itemSize => exact keptWhileValid_setItemSize itemSize before kept
  | setInterItemSpace interItemSpace => exact kept
  | boundsChange newBounds => exact keptWhileValid_boundsChange newBounds before kept
  | reloadData numberOfItems => rintro ⟨⟩
  | layoutPass => exact keptWhileValid_layoutPass before kept

theorem keptWhileValid_of_reaches [DecidableEq K] (events : List (Event K)) (screen : Screen K)
    (run : machine.Reaches events screen) : KeptWhileValid screen := by
  apply reaches_invariant machine KeptWhileValid _ _ events screen run
  · rintro ⟨⟩
  · intro event before after kept taken
    cases taken
    exact keptWhileValid_step event before kept

/-- The spaces stand between the items, so one item has none. -/
theorem contentSizeWithSpace_eq_iff [CharZero K] (first second : K) (screen : Screen K) :
    contentSizeWithSpace first screen = contentSizeWithSpace second screen ↔
      screen.collectionView.numberOfItems = 1 ∨ first = second := by
  have single : (screen.collectionView.numberOfItems : K) - 1 = 0 ↔
      screen.collectionView.numberOfItems = 1 := by
    rw [sub_eq_zero]
    exact Nat.cast_eq_one
  simp [contentSizeWithSpace, freshContentSize, collectionViewContentSize, prepareLayout,
    setInterItemSpace, single, or_comm]

variable [DecidableEq K]

/-- Right after each layout pass the kept content size is the present one. -/
def FreshAfterPasses (events : List (Event K)) : Prop :=
  ∀ before screen, before ++ [.layoutPass] <+: events →
    machine.Reaches (before ++ [.layoutPass]) screen →
      screen.contentSize = freshContentSize screen

/-- A layout pass comes to an invalidated layout, or finds the space the layout
was last asked with, or a single item. -/
def SpaceKept (_ : List (Event K)) (before : Screen K) : Event K → Prop
  | .layoutPass =>
      before.layout.invalidated = true ∨ before.collectionView.numberOfItems = 1 ∨
        before.laidOutSpace = before.layout.interItemSpace
  | _ => True

omit [DecidableEq K] in
theorem layoutPass_fresh_iff [CharZero K] (before : Screen K) (kept : KeptWhileValid before) :
    (layoutPass before).contentSize = freshContentSize (layoutPass before) ↔
      before.layout.invalidated = true ∨ before.collectionView.numberOfItems = 1 ∨
        before.laidOutSpace = before.layout.interItemSpace := by
  unfold layoutPass
  by_cases asked : before.layout.invalidated = true
  · rw [if_pos asked]
    exact iff_of_true rfl (Or.inl asked)
  · rw [if_neg asked, kept (Bool.eq_false_of_not_eq_true asked)]
    have present : freshContentSize before =
        contentSizeWithSpace before.layout.interItemSpace before := rfl
    rw [present, contentSizeWithSpace_eq_iff]
    exact (or_iff_right asked).symm

/-- The content size is never stale exactly in the runs whose passes never come
to a valid layout with another space between its items. -/
theorem never_stale_iff [CharZero K] (events : List (Event K)) :
    FreshAfterPasses events ↔ machine.EachStep SpaceKept events := by
  constructor
  · intro fresh before event screen next inside reached taken
    cases event with
    | layoutPass =>
        cases taken
        have after := fresh before (layoutPass screen) inside
          ((reaches_snoc_iff machine before .layoutPass _).mpr ⟨screen, reached, rfl⟩)
        exact (layoutPass_fresh_iff screen
          (keptWhileValid_of_reaches before screen reached)).mp after
    | _ => trivial
  · intro met before screen inside run
    obtain ⟨earlier, reached, taken⟩ :=
      (reaches_snoc_iff machine before .layoutPass screen).mp run
    have condition := met before .layoutPass earlier screen inside reached taken
    cases taken
    exact (layoutPass_fresh_iff earlier
      (keptWhileValid_of_reaches before earlier reached)).mpr condition

/-- The carousel of 10 items in a view of 320 by 480 points, laid out once. -/
def laidOutCarousel : List (Event ℚ) :=
  [.setItemSize ⟨280, 240⟩, .setInterItemSpace 20, .boundsChange ⟨⟨0, 0⟩, ⟨320, 480⟩⟩,
    .reloadData 10, .layoutPass]

theorem never_stale_laidOutCarousel :
    FreshAfterPasses laidOutCarousel ↔ machine.EachStep SpaceKept laidOutCarousel :=
  never_stale_iff laidOutCarousel

/-- Another space reaches the layout and not the content size. -/
theorem new_space_stale_after_pass :
    (∃ screen, machine.Reaches
        (laidOutCarousel ++ [.setInterItemSpace 40] ++ [.layoutPass]) screen ∧
      screen.contentSize = ⟨3020, 480⟩ ∧ freshContentSize screen = ⟨3200, 480⟩) ∧
      ¬ FreshAfterPasses (laidOutCarousel ++ [.setInterItemSpace 40] ++ [.layoutPass]) := by
  have stale : ∃ screen, machine.Reaches
        (laidOutCarousel ++ [.setInterItemSpace 40] ++ [.layoutPass]) screen ∧
      screen.contentSize = ⟨3020, 480⟩ ∧ freshContentSize screen = ⟨3200, 480⟩ :=
    ⟨_, rfl, by decide +kernel, by decide +kernel⟩
  refine ⟨stale, ?_⟩
  intro fresh
  obtain ⟨screen, run, kept, present⟩ := stale
  have same := fresh _ screen (List.prefix_refl _) run
  rw [kept, present] at same
  exact absurd same (by decide +kernel)

end CollectionViewWorkshop.CarouselPasses
