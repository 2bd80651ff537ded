import CollectionViewWorkshop.ImageResizer
import CollectionViewWorkshop.LatestWrite
import CollectionViewWorkshop.PartialRuns
import CollectionViewWorkshop.RequestTable
import CollectionViewWorkshop.StreamItemTransformer

/-!
`StreamItemCreator` (Photo Stream/Model) as a machine over the callbacks it
gets: the action sheet, the picker, the completion block of a dismissal and
the title alert. The platform decides which picker sources there are, which
bitmap contexts can be made and what `UIImageJPEGRepresentation` answers.
`picks` and `deliveries` record what happened; the code reads neither. A
delegate that raises is left out here: an uncaught exception ends the run.
-/

namespace CollectionViewWorkshop.StreamItemCreator

open CoreGraphics ImageResizer LatestWrite PartialRuns RequestTable Rounding
open StreamItemTransformer

inductive SourceType where
  | photoLibrary | camera
  deriving DecidableEq

structure Platform where
  supports : BitmapFormat → Bool
  jpegRepresentation : UIImage CGFloat → CGFloat → Option NSData
  isSourceTypeAvailable : SourceType → Bool

def imageQuality : CGFloat := roundSignificand 24 (7 / 10)

def maxImageDimension : CGFloat := 300

inductive PickerPhase where
  | presented | dismissing | dismissed
  deriving DecidableEq

inductive PickPhase where
  | dismissing | alertShown | clicked
  deriving DecidableEq

structure Pick where
  image : Option (UIImage CGFloat)
  phase : PickPhase

/-- One `streamItemCreator:didCreateItem:` call, from the alert of `pick`. -/
structure Delivery where
  pick : ℕ
  typed : Option NSString
  item : Option StreamItem

structure Creator where
  createdItem : Option StreamItem
  sheets : ℕ
  pickers : List PickerPhase
  picks : List Pick
  deliveries : List Delivery

def initWithDelegate : Creator := ⟨none, 0, [], [], []⟩

def actionSheetButtons (platform : Platform) : List NSString :=
  (if platform.isSourceTypeAvailable .photoLibrary then ["Pick from library"] else []) ++
    (if platform.isSourceTypeAvailable .camera then ["Take a photo"] else []) ++ ["Cancel"]

def createStreamItem (creator : Creator) : Creator :=
  { creator with createdItem := none, sheets := creator.sheets + 1 }

def presentImagePicker (platform : Platform) (sourceType : SourceType) (creator : Creator) :
    Creator :=
  if platform.isSourceTypeAvailable sourceType then
    { creator with pickers := creator.pickers ++ [.presented] }
  else creator

def clickedSheetButton (platform : Platform) (creator : Creator) : ℕ → Creator
  | 0 => presentImagePicker platform .photoLibrary creator
  | 1 => presentImagePicker platform .camera creator
  | _ => creator

def pickedItem (platform : Platform) (pickedImage : Option (UIImage CGFloat)) : StreamItem :=
  let resizedImage :=
    resizeImageToBoundBothDimensionsTo platform.supports pickedImage maxImageDimension
  { StreamItem.new with
    data := resizedImage.bind fun image => platform.jpegRepresentation image imageQuality
    size := imageSize resizedImage }

def didFinishPicking (platform : Platform) (picker : ℕ)
    (pickedImage : Option (UIImage CGFloat)) (creator : Creator) : Creator :=
  { creator with
    createdItem := some (pickedItem platform pickedImage)
    pickers := creator.pickers.set picker .dismissing
    picks := creator.picks ++ [⟨pickedImage, .dismissing⟩] }

def didCancel (picker : ℕ) (creator : Creator) : Creator :=
  { creator with pickers := creator.pickers.set picker .dismissing }

def showAlertView (pick : ℕ) (image : Option (UIImage CGFloat)) (creator : Creator) : Creator :=
  { creator with picks := creator.picks.set pick ⟨image, .alertShown⟩ }

/-- `createdItem.title = text`, the delegate call and `createdItem = nil`. -/
def clickedAlertButton (pick : ℕ) (image : Option (UIImage CGFloat)) (text : Option NSString)
    (creator : Creator) : Creator :=
  let titled := creator.createdItem.map fun item => { item with title := text }
  { creator with
    createdItem := none
    picks := creator.picks.set pick ⟨image, .clicked⟩
    deliveries := creator.deliveries ++ [⟨pick, text, titled⟩] }

inductive Callback where
  | createStreamItem
  | clickedSheetButton (index : ℕ)
  | didFinishPicking (picker : ℕ) (image : Option (UIImage CGFloat))
  | didCancel (picker : ℕ)
  | dismissalCompleted (picker : ℕ)
  | completionBlock (pick : ℕ)
  | clickedAlertButton (pick : ℕ) (text : Option NSString)

/-- A picker calls back until its dismissal completes. -/
def pickerCalls (creator : Creator) (picker : ℕ) : Bool :=
  creator.pickers[picker]? = some .presented ∨ creator.pickers[picker]? = some .dismissing

def step (platform : Platform) (creator : Creator) : Callback → Option Creator
  | .createStreamItem => some (createStreamItem creator)
  | .clickedSheetButton index =>
      if 0 < creator.sheets ∧ index < (actionSheetButtons platform).length then
        some (clickedSheetButton platform { creator with sheets := creator.sheets - 1 } index)
      else none
  | .didFinishPicking picker image =>
      if pickerCalls creator picker then some (didFinishPicking platform picker image creator)
      else none
  | .didCancel picker =>
      if pickerCalls creator picker then some (didCancel picker creator) else none
  | .dismissalCompleted picker =>
      if creator.pickers[picker]? = some .dismissing then
        some { creator with pickers := creator.pickers.set picker .dismissed }
      else none
  | .completionBlock pick =>
      creator.picks[pick]?.bind fun made =>
        if made.phase = .dismissing then some (showAlertView pick made.image creator) else none
  -- the alert has one button, and its delegate reads no index
  | .clickedAlertButton pick text =>
      creator.picks[pick]?.bind fun made =>
        if made.phase = .alertShown then
          some (clickedAlertButton pick made.image text creator)
        else none

def machine (platform : Platform) : Machine Creator Callback where
  initial := initWithDelegate
  step := step platform

def slotWrite (platform : Platform) : Callback → Option (Option StreamItem)
  | .createStreamItem => some none
  | .didFinishPicking _ image => some (some (pickedItem platform image))
  | .clickedAlertButton _ _ => some none
  | _ => none

def pickedImage : Callback → Option (Option (UIImage CGFloat))
  | .didFinishPicking _ image => some image
  | _ => none

def delivery (creator : Creator) : Callback → Option Delivery
  | .clickedAlertButton pick text =>
      some ⟨pick, text, creator.createdItem.map fun item => { item with title := text }⟩
  | _ => none

def phase (creator : Creator) (pick : ℕ) : Option PickPhase :=
  creator.picks[pick]?.map Pick.phase

/-! What one callback does to the slot, the picks and the delivered items. -/

variable (platform : Platform)

theorem clickedSheetButton_frame (creator : Creator) (index : ℕ) :
    (clickedSheetButton platform creator index).createdItem = creator.createdItem ∧
      (clickedSheetButton platform creator index).picks = creator.picks ∧
        (clickedSheetButton platform creator index).deliveries = creator.deliveries := by
  unfold clickedSheetButton presentImagePicker
  split
  · split <;> exact ⟨rfl, rfl, rfl⟩
  · split <;> exact ⟨rfl, rfl, rfl⟩
  · exact ⟨rfl, rfl, rfl⟩

/-- What each callback does, with the conditions under which it can come. -/
inductive Called (before : Creator) : Callback → Creator → Prop where
  | createStreamItem : Called before .createStreamItem (createStreamItem before)
  | clickedSheetButton (index : ℕ) (pending : 0 < before.sheets)
      (listed : index < (actionSheetButtons platform).length) :
      Called before (.clickedSheetButton index)
        (clickedSheetButton platform { before with sheets := before.sheets - 1 } index)
  | didFinishPicking (picker : ℕ) (image : Option (UIImage CGFloat))
      (calls : pickerCalls before picker = true) :
      Called before (.didFinishPicking picker image)
        (didFinishPicking platform picker image before)
  | didCancel (picker : ℕ) (calls : pickerCalls before picker = true) :
      Called before (.didCancel picker) (didCancel picker before)
  | dismissalCompleted (picker : ℕ)
      (dismissing : before.pickers[picker]? = some .dismissing) :
      Called before (.dismissalCompleted picker)
        { before with pickers := before.pickers.set picker .dismissed }
  | completionBlock (pick : ℕ) (made : Pick) (found : before.picks[pick]? = some made)
      (waiting : made.phase = .dismissing) :
      Called before (.completionBlock pick) (showAlertView pick made.image before)
  | clickedAlertButton (pick : ℕ) (text : Option NSString) (made : Pick)
      (found : before.picks[pick]? = some made) (shown : made.phase = .alertShown) :
      Called before (.clickedAlertButton pick text)
        (clickedAlertButton pick made.image text before)

theorem step_called (before after : Creator) (callback : Callback)
    (taken : step platform before callback = some after) :
    Called platform before callback after := by
  cases callback with
  | createStreamItem =>
      cases taken
      exact .createStreamItem
  | clickedSheetButton index =>
      simp only [step, Option.ite_none_right_eq_some, Option.some.injEq] at taken
      obtain ⟨⟨pending, listed⟩, rfl⟩ := taken
      exact .clickedSheetButton index pending listed
  | didFinishPicking picker image =>
      simp only [step, Option.ite_none_right_eq_some, Option.some.injEq] at taken
      obtain ⟨calls, rfl⟩ := taken
      exact .didFinishPicking picker image calls
  | didCancel picker =>
      simp only [step, Option.ite_none_right_eq_some, Option.some.injEq] at taken
      obtain ⟨calls, rfl⟩ := taken
      exact .didCancel picker calls
  | dismissalCompleted picker =>
      simp only [step, Option.ite_none_right_eq_some, Option.some.injEq] at taken
      obtain ⟨dismissing, rfl⟩ := taken
      exact .dismissalCompleted picker dismissing
  | completionBlock pick =>
      simp only [step, Option.bind_eq_some_iff, Option.ite_none_right_eq_some,
        Option.some.injEq] at taken
      obtain ⟨made, found, waiting, rfl⟩ := taken
      exact .completionBlock pick made found waiting
  | clickedAlertButton pick text =>
      simp only [step, Option.bind_eq_some_iff, Option.ite_none_right_eq_some,
        Option.some.injEq] at taken
      obtain ⟨made, found, shown, rfl⟩ := taken
      exact .clickedAlertButton pick text made found shown

/-- The slot, the picked images and the delivered items after a callback. -/
theorem step_spec (before after : Creator) (callback : Callback)
    (taken : step platform before callback = some after) :
    after.createdItem = (slotWrite platform callback).getD before.createdItem ∧
      after.picks.map Pick.image = before.picks.map Pick.image ++ (pickedImage callback).toList ∧
        after.deliveries = before.deliveries ++ (delivery before callback).toList := by
  cases step_called platform before after callback taken with
  | createStreamItem => simp [createStreamItem, slotWrite, pickedImage, delivery]
  | clickedSheetButton index =>
      obtain ⟨slot, picks, delivered⟩ := clickedSheetButton_frame platform
        { before with sheets := before.sheets - 1 } index
      simp [slot, picks, delivered, slotWrite, pickedImage, delivery]
  | didFinishPicking picker image =>
      simp [didFinishPicking, slotWrite, pickedImage, delivery]
  | didCancel picker => simp [didCancel, slotWrite, pickedImage, delivery]
  | dismissalCompleted picker => simp [slotWrite, pickedImage, delivery]
  | completionBlock pick made found =>
      simp [showAlertView, slotWrite, pickedImage, delivery,
        map_settled Pick.image before.picks pick made ⟨made.image, .alertShown⟩ found rfl]
  | clickedAlertButton pick text made found =>
      simp [clickedAlertButton, slotWrite, pickedImage, delivery,
        map_settled Pick.image before.picks pick made ⟨made.image, .clicked⟩ found rfl]

theorem slot_is_latest (events : List Callback) (creator : Creator)
    (run : (machine platform).Reaches events creator) :
    creator.createdItem = latest (slotWrite platform) none events := by
  induction events using List.reverseRecOn generalizing creator with
  | nil =>
      rw [(reaches_nil_iff _ creator).mp run]
      rfl
  | append_singleton events callback ih =>
      obtain ⟨before, reached, taken⟩ := (reaches_snoc_iff _ events callback creator).mp run
      rw [(step_spec platform before creator callback taken).1, latest_snoc, ih before reached]

theorem picks_are_picked (events : List Callback) (creator : Creator)
    (run : (machine platform).Reaches events creator) :
    creator.picks.map Pick.image = events.filterMap pickedImage := by
  induction events using List.reverseRecOn generalizing creator with
  | nil =>
      rw [(reaches_nil_iff _ creator).mp run]
      rfl
  | append_singleton events callback ih =>
      obtain ⟨before, reached, taken⟩ := (reaches_snoc_iff _ events callback creator).mp run
      rw [(step_spec platform before creator callback taken).2.1, ih before reached,
        List.filterMap_append]
      cases picked : pickedImage callback <;> simp [picked]

/-! How often a pick has led to a delegate call. -/

def deliveriesFor (creator : Creator) (pick : ℕ) : ℕ :=
  creator.deliveries.countP fun made => made.pick = pick

/-- One call for a pick whose alert was clicked, none for any other. -/
def CountedOnce (creator : Creator) : Prop :=
  ∀ pick, deliveriesFor creator pick = if phase creator pick = some .clicked then 1 else 0

theorem phase_set (picks : List Pick) (made : Pick) (pick index : ℕ)
    (inside : pick < picks.length) :
    (picks.set pick made)[index]?.map Pick.phase =
      if pick = index then some made.phase else picks[index]?.map Pick.phase := by
  by_cases same : pick = index
  · subst same
    simp [inside]
  · simp [same]

theorem phase_append (picks : List Pick) (image : Option (UIImage CGFloat)) (index : ℕ) :
    (picks ++ [⟨image, .dismissing⟩])[index]?.map Pick.phase = some .clicked ↔
      picks[index]?.map Pick.phase = some .clicked := by
  rw [List.getElem?_append]
  by_cases inside : index < picks.length
  · simp only [if_pos inside]
  · have absent : picks[index]? = none := List.getElem?_eq_none (Nat.le_of_not_lt inside)
    simp only [if_neg inside, absent]
    cases index - picks.length <;> simp

theorem countedOnce_of_frame (before after : Creator) (counted : CountedOnce before)
    (delivered : after.deliveries = before.deliveries)
    (phases : ∀ pick, phase after pick = some .clicked ↔ phase before pick = some .clicked) :
    CountedOnce after := by
  intro pick
  simp only [deliveriesFor, delivered, phases]
  exact counted pick

theorem countedOnce_step (callback : Callback) (before after : Creator)
    (counted : CountedOnce before) (taken : step platform before callback = some after) :
    CountedOnce after := by
  cases step_called platform before after callback taken with
  | createStreamItem => exact countedOnce_of_frame before _ counted rfl fun _ => Iff.rfl
  | clickedSheetButton index =>
      obtain ⟨-, picks, same⟩ := clickedSheetButton_frame platform
        { before with sheets := before.sheets - 1 } index
      exact countedOnce_of_frame before _ counted same fun pick => by simp only [phase, picks]
  | didFinishPicking picker image =>
      exact countedOnce_of_frame before _ counted rfl (phase_append before.picks image)
  | didCancel picker => exact countedOnce_of_frame before _ counted rfl fun _ => Iff.rfl
  | dismissalCompleted picker => exact countedOnce_of_frame before _ counted rfl fun _ => Iff.rfl
  | completionBlock pick made found waiting =>
      have inside := (List.getElem?_eq_some_iff.mp found).1
      apply countedOnce_of_frame before (showAlertView pick made.image before) counted rfl
      intro index
      simp only [phase, showAlertView, phase_set before.picks _ pick index inside]
      by_cases same : pick = index
      · subst same
        simp [found, waiting]
      · simp [same]
  | clickedAlertButton pick text made found shown =>
      have inside := (List.getElem?_eq_some_iff.mp found).1
      intro index
      have earlier := counted index
      simp only [deliveriesFor, phase] at earlier
      simp only [deliveriesFor, phase, List.countP_append, earlier, clickedAlertButton,
        phase_set before.picks _ pick index inside]
      by_cases same : pick = index
      · subst same
        simp [found, shown]
      · simp [same]

theorem counted_once (creator : Creator) (reached : (machine platform).Reachable creator) :
    CountedOnce creator :=
  reachable_invariant (machine platform) CountedOnce
    (fun pick => by simp [machine, initWithDelegate, deliveriesFor, phase])
    (countedOnce_step platform) creator reached

def Delivered (creator : Creator) (made : Delivery) : Prop :=
  ∃ item pick, made.item = some item ∧ creator.picks[made.pick]? = some pick ∧
    item.data = (pickedItem platform pick.image).data ∧
    item.size = (pickedItem platform pick.image).size ∧ item.title = made.typed

structure CreationLaw (creator : Creator) : Prop where
  delivered : ∀ made ∈ creator.deliveries, Delivered platform creator made
  atMostOnce : ∀ pick, deliveriesFor creator pick ≤ 1
  onceClicked : ∀ pick, phase creator pick = some .clicked → deliveriesFor creator pick = 1

/-- When an alert is clicked, the latest of the `createStreamItem` calls, the
picks and the clicks before it is a pick that gives the data and the size the
pick of this alert gave. -/
def LatestIsOwnPick (history : List Callback) (_ : Creator) : Callback → Prop
  | .clickedAlertButton pick _ =>
      ∃ earlier picker image later own,
        history = earlier ++ .didFinishPicking picker image :: later ∧
        Untouched (slotWrite platform) later ∧
        (history.filterMap pickedImage)[pick]? = some own ∧
        (pickedItem platform image).data = (pickedItem platform own).data ∧
        (pickedItem platform image).size = (pickedItem platform own).size
  | _ => True

/-- The slot holds an item exactly when a pick wrote it last. -/
theorem slot_from_pick (events : List Callback) (item : StreamItem) :
    latest (slotWrite platform) none events = some item ↔
      ∃ earlier picker image later, events = earlier ++ .didFinishPicking picker image :: later ∧
        Untouched (slotWrite platform) later ∧ item = pickedItem platform image := by
  constructor
  · intro held
    rcases latest_cases (slotWrite platform) none events with
      ⟨-, empty⟩ | ⟨earlier, writer, later, value, split, wrote, quiet, same⟩
    · rw [held] at empty
      cases empty
    · rw [held] at same
      subst same
      cases writer with
      | didFinishPicking picker image =>
          exact ⟨earlier, picker, image, later, split, quiet,
            (Option.some.inj (Option.some.inj wrote)).symm⟩
      | _ => cases wrote
  · rintro ⟨earlier, picker, image, later, rfl, quiet, rfl⟩
    exact latest_of_split (slotWrite platform) none earlier later _ _ rfl quiet

theorem picked_image_iff (events : List Callback) (creator : Creator)
    (run : (machine platform).Reaches events creator) (pick : ℕ)
    (image : Option (UIImage CGFloat)) :
    (events.filterMap pickedImage)[pick]? = some image ↔
      ∃ made, creator.picks[pick]? = some made ∧ made.image = image := by
  rw [← picks_are_picked platform events creator run, List.getElem?_map,
    Option.map_eq_some_iff]

theorem delivered_frame (before after : Creator) (made : Delivery)
    (kept : ∀ (pick : ℕ) (image : Option (UIImage CGFloat)),
      before.picks[pick]?.map Pick.image = some image →
        after.picks[pick]?.map Pick.image = some image)
    (holds : Delivered platform before made) : Delivered platform after made := by
  obtain ⟨item, pick, sent, found, data, size, title⟩ := holds
  obtain ⟨other, same, image⟩ := Option.map_eq_some_iff.mp
    (kept made.pick pick.image (by simp [found]))
  exact ⟨item, other, sent, same, by rw [image, data], by rw [image, size], title⟩

theorem step_keeps_images (before after : Creator) (callback : Callback)
    (taken : step platform before callback = some after) (pick : ℕ)
    (image : Option (UIImage CGFloat))
    (found : before.picks[pick]?.map Pick.image = some image) :
    after.picks[pick]?.map Pick.image = some image := by
  have images := (step_spec platform before after callback taken).2.1
  rw [← List.getElem?_map] at found ⊢
  rw [images]
  exact List.getElem?_append_left (List.getElem?_eq_some_iff.mp found).1 ▸ found

theorem click_delivers_iff (events : List Callback) (before after : Creator) (pick : ℕ)
    (text : Option NSString) (run : (machine platform).Reaches events before)
    (taken : step platform before (.clickedAlertButton pick text) = some after) :
    Delivered platform after
        ⟨pick, text, before.createdItem.map fun item => { item with title := text }⟩ ↔
      LatestIsOwnPick platform events before (.clickedAlertButton pick text) := by
  have clicked : ∃ own, before.picks[pick]? = some own := by
    cases step_called platform before after (.clickedAlertButton pick text) taken with
    | clickedAlertButton pick text own found => exact ⟨own, found⟩
  obtain ⟨own, found⟩ := clicked
  have ownImage := step_keeps_images platform before after _ taken pick own.image
    (by simp [found])
  obtain ⟨shown, same, image⟩ := Option.map_eq_some_iff.mp ownImage
  have listed := (picked_image_iff platform events before run pick own.image).mpr
    ⟨own, found, rfl⟩
  have slot := slot_is_latest platform events before run
  constructor
  · rintro ⟨item, other, sent, otherFound, data, size, -⟩
    obtain ⟨held, heldBy, rfl⟩ := Option.map_eq_some_iff.mp sent
    rw [slot] at heldBy
    obtain ⟨earlier, picker, latestImage, later, split, quiet, rfl⟩ :=
      (slot_from_pick platform events held).mp heldBy
    cases otherFound.symm.trans same
    exact ⟨earlier, picker, latestImage, later, own.image, split, quiet, listed,
      image ▸ data, image ▸ size⟩
  · rintro ⟨earlier, picker, latestImage, later, ownAgain, split, quiet, listedAgain, data, size⟩
    cases listedAgain.symm.trans listed
    have heldBy := (slot_from_pick platform events _).mpr
      ⟨earlier, picker, latestImage, later, split, quiet, rfl⟩
    rw [← slot] at heldBy
    exact ⟨{ pickedItem platform latestImage with title := text }, shown, by simp [heldBy], same,
      by rw [image]; exact data, by rw [image]; exact size, rfl⟩

-- Only a click delivers, and the counts hold in every reachable state, so a step
-- is decided by what the clicked alert finds in the slot.
theorem creationLaw_step (events : List Callback) (callback : Callback)
    (before after : Creator) (run : (machine platform).Reaches events before)
    (law : CreationLaw platform before)
    (taken : (machine platform).step before callback = some after) :
    CreationLaw platform after ↔ LatestIsOwnPick platform events before callback := by
  have counted := counted_once platform after
    (reachable_step _ callback before after ⟨events, run⟩ taken)
  have delivered := (step_spec platform before after callback taken).2.2
  have carried : ∀ made ∈ before.deliveries, Delivered platform after made :=
    fun made member => delivered_frame platform before after made
      (step_keeps_images platform before after callback taken) (law.delivered made member)
  have counts : CreationLaw platform after ↔
      ∀ made ∈ after.deliveries, Delivered platform after made := by
    refine ⟨CreationLaw.delivered, fun all => ⟨all, fun pick => ?_, fun pick clicked => ?_⟩⟩
    · rw [counted pick]
      split <;> simp
    · rw [counted pick, if_pos clicked]
  rw [counts, delivered]
  cases callback with
  | clickedAlertButton pick text =>
      rw [← click_delivers_iff platform events before after pick text run taken]
      constructor
      · intro all
        exact all _ (by simp [delivery])
      · intro last made member
        rcases List.mem_append.mp member with old | new
        · exact carried made old
        · rw [List.mem_singleton.mp new]
          exact last
  | _ => simpa [delivery, LatestIsOwnPick] using carried

/-- Every created photo is delivered once, unmixed and not nil, in every state
of a run exactly when no alert of the run is clicked over another's slot. -/
theorem creation_flow_iff (events : List Callback) :
    (machine platform).Throughout (CreationLaw platform) events ↔
      (machine platform).EachStep (LatestIsOwnPick platform) events := by
  apply throughout_iff_eachStep
  · refine ⟨by simp [machine, initWithDelegate], fun pick => ?_, fun pick => ?_⟩
    · simp [machine, initWithDelegate, deliveriesFor]
    · simp [machine, initWithDelegate, phase]
  · exact creationLaw_step platform

/-- A platform with both sources on which every image has a JPEG of one byte. -/
def obliging : Platform := ⟨fun _ => true, fun _ _ => some [255], fun _ => true⟩

def pickedTwice : List Callback :=
  let image : UIImage CGFloat := ⟨.photo 0 4 3 ⟨8, 0, 0⟩, ⟨4, 3⟩, .up⟩
  [.createStreamItem, .clickedSheetButton 0, .didFinishPicking 0 (some image),
    .didFinishPicking 0 (some image), .dismissalCompleted 0, .completionBlock 0,
    .completionBlock 1, .clickedAlertButton 0 (some "first"),
    .clickedAlertButton 1 (some "second")]

/-- The picker calls back twice and both alerts are clicked: the second click
delivers nil. -/
theorem picked_twice_delivers_nil :
    ∃ creator, (machine obliging).Reaches pickedTwice creator ∧
      creator.deliveries[1]? = some ⟨1, some "second", none⟩ ∧
      ¬ CreationLaw obliging creator := by
  refine ⟨_, rfl, rfl, ?_⟩
  intro law
  obtain ⟨item, pick, sent, -⟩ := law.delivered ⟨1, some "second", none⟩
    (List.mem_of_getElem? (i := 1) rfl)
  cases sent

end CollectionViewWorkshop.StreamItemCreator
