import CollectionViewWorkshop.KeyedWrites
import CollectionViewWorkshop.ShownOnce

/-!
What `PhotoStreamViewController` puts on the screen: the collection view it is
the data source of, the images its items cache, and the preview. The view asks
how many items there are when it lays out after a reload, and for a cell only
below that number; which cells scroll in or out, and which waiting cell it
reuses, is up to the view. Only a visible cell is tapped, and none beneath a
preview. `tapped` is recorded for the laws only.
-/

namespace CollectionViewWorkshop.PhotoStreamScreen

open KeyedWrites PartialRuns PhotoStream PhotoStreamInvariants StreamItemTransformer

variable {UIImage : Type}

/-- A `StreamItem` of the array with the image it has made of its data. -/
structure CachedItem (UIImage : Type) where
  ref : ItemRef
  cachedImage : Option UIImage

/-- `imageView.image` of a cell. -/
structure PhotoStreamCell (UIImage : Type) where
  image : Option UIImage

structure UICollectionView (UIImage : Type) where
  /-- What the data source answered since the last reload. -/
  numberOfItems : Option ℕ
  visible : Dictionary ℕ (PhotoStreamCell UIImage)
  reusable : List (PhotoStreamCell UIImage)

structure Preview (UIImage : Type) where
  streamItem : Option ItemRef
  title : Option NSString
  image : Option UIImage
  tapped : Option UIImage

inductive NSRangeException where
  | beyondBounds (index count : ℕ)

structure Screen (UIImage : Type) where
  world : World
  streamItems : Option (List (CachedItem UIImage))
  collectionView : UICollectionView UIImage
  preview : Option (Preview UIImage)
  raised : Option NSRangeException

variable (initWithData : NSData → Option UIImage)

def photoImage (ref : ItemRef) : Option UIImage :=
  ref.item.data.bind initWithData

def CachedItem.image (item : CachedItem UIImage) : Option UIImage × CachedItem UIImage :=
  match item.cachedImage with
  | some image => (some image, item)
  | none =>
      let cachedImage := photoImage initWithData item.ref
      (cachedImage, { item with cachedImage := cachedImage })

def reloadData (view : UICollectionView UIImage) : UICollectionView UIImage where
  numberOfItems := none
  visible := ∅
  reusable := view.reusable ++ view.visible.entries.map Sigma.snd

def dequeueReusableCell (reused : ℕ) (view : UICollectionView UIImage) :
    PhotoStreamCell UIImage × UICollectionView UIImage :=
  match view.reusable[reused]? with
  | some cell => (cell, { view with reusable := view.reusable.eraseIdx reused })
  | none => (⟨none⟩, view)

def display (index : ℕ) (cell : PhotoStreamCell UIImage) (view : UICollectionView UIImage) :
    UICollectionView UIImage :=
  { view with visible := view.visible.insert index cell }

def endDisplaying (index : ℕ) (view : UICollectionView UIImage) : UICollectionView UIImage :=
  { view with
    visible := view.visible.erase index
    reusable := view.reusable ++ (view.visible.lookup index).toList }

/-- `self.streamItems[index]`, which is nil in a nil array. -/
def itemAt (index : ℕ) (screen : Screen UIImage) :
    Except NSRangeException (Option (CachedItem UIImage)) :=
  match screen.streamItems with
  | none => .ok none
  | some items =>
      match items[index]? with
      | some item => .ok (some item)
      | none => .error (.beyondBounds index items.length)

def numberOfItemsInSection (screen : Screen UIImage) : ℕ :=
  (screen.streamItems.getD []).length

structure Drawn (UIImage : Type) where
  streamItem : Option ItemRef
  image : Option UIImage
  screen : Screen UIImage

def drawItemAt (index : ℕ) (screen : Screen UIImage) :
    Except NSRangeException (Drawn UIImage) :=
  (itemAt index screen).map fun
    | none => ⟨none, none, screen⟩
    | some item =>
        let (image, cached) := item.image initWithData
        ⟨some item.ref, image, { screen with
          streamItems := screen.streamItems.map fun items => items.set index cached }⟩

def cellForItemAtIndexPath (index reused : ℕ) (screen : Screen UIImage) : Screen UIImage :=
  let (cell, collectionView) := dequeueReusableCell reused screen.collectionView
  match drawItemAt initWithData index screen with
  | .error exception => { screen with raised := some exception }
  | .ok drawn => { drawn.screen with
      collectionView := display index { cell with image := drawn.image } collectionView }

/-- The preview asks its item for the image when it is presented. -/
def didSelectItemAtIndexPath (index : ℕ) (cell : PhotoStreamCell UIImage)
    (screen : Screen UIImage) : Screen UIImage :=
  match drawItemAt initWithData index screen with
  | .error exception => { screen with raised := some exception }
  | .ok drawn => { drawn.screen with
      preview := some ⟨drawn.streamItem, drawn.streamItem.bind fun ref => ref.item.title,
        drawn.image, cell.image⟩ }

def doneBarButtonPressed (screen : Screen UIImage) : Screen UIImage :=
  { screen with preview := none }

def reloaded (screen : Screen UIImage) : Screen UIImage :=
  { screen with collectionView := reloadData screen.collectionView }

def uncached (refs : List ItemRef) : List (CachedItem UIImage) :=
  refs.map fun ref => ⟨ref, none⟩

-- `addObject:` raises before the reload, the upload only after it
/-- `streamItemCreator:didCreateItem:`, after which the world is `after`. -/
def joinItem (item : Option StreamItem) (after : World) (screen : Screen UIImage) :
    Screen UIImage :=
  match screen.streamItems, item with
  | none, _ => reloaded { screen with world := after }
  | some items, some item =>
      let ref : ItemRef := ⟨.created screen.world.created.length, item⟩
      reloaded { screen with world := after, streamItems := some (items ++ uncached [ref]) }
  | some _, none => { screen with world := after }

def follow (event : PhotoStream.Event) (after : World) (screen : Screen UIImage) :
    Screen UIImage :=
  let replaced := { screen with
    world := after
    streamItems := after.controller.streamItems.map uncached }
  match event with
  | .deliver _ => reloaded replaced
  | .deliverError _ _ => reloaded replaced
  | .didCreateItem item => joinItem item after screen
  | _ => { screen with world := after }

inductive Event where
  | stream (event : PhotoStream.Event)
  | layout
  | display (index reused : ℕ)
  | endDisplaying (index : ℕ)
  | select (index : ℕ)
  | done

def step (screen : Screen UIImage) : Event → Option (Screen UIImage)
  | .stream event =>
      (PhotoStream.step screen.world event).map fun after => follow event after screen
  | .layout =>
      match screen.collectionView.numberOfItems with
      | some _ => none
      | none => some { screen with
          collectionView := { screen.collectionView with
            numberOfItems := some (numberOfItemsInSection screen) } }
  | .display index reused =>
      match screen.collectionView.numberOfItems, screen.collectionView.visible.lookup index with
      | some count, none =>
          if index < count then some (cellForItemAtIndexPath initWithData index reused screen)
          else none
      | _, _ => none
  | .endDisplaying index =>
      some { screen with collectionView := endDisplaying index screen.collectionView }
  | .select index =>
      match screen.collectionView.visible.lookup index, screen.preview with
      | some cell, none => some (didSelectItemAtIndexPath initWithData index cell screen)
      | _, _ => none
  | .done => some (doneBarButtonPressed screen)

def screenMachine : Machine (Screen UIImage) Event where
  initial := ⟨PhotoStream.machine.initial, none, ⟨none, ∅, []⟩, none, none⟩
  step := step initWithData

/-! The objects of the array are the list of the controller, and what they cached is right. -/

def refAt (index : ℕ) (world : World) : Option ItemRef :=
  (world.controller.streamItems.getD [])[index]?

structure Match (items : Option (List (CachedItem UIImage))) (refs : Option (List ItemRef)) :
    Prop where
  same : items.map (List.map CachedItem.ref) = refs
  cached : ∀ item ∈ items.getD [], ∀ image, item.cachedImage = some image →
    photoImage initWithData item.ref = some image

theorem image_spec (item : CachedItem UIImage)
    (cached : ∀ image, item.cachedImage = some image →
      photoImage initWithData item.ref = some image) :
    (item.image initWithData).1 = photoImage initWithData item.ref ∧
      (item.image initWithData).2.ref = item.ref ∧
        ∀ image, (item.image initWithData).2.cachedImage = some image →
          photoImage initWithData item.ref = some image := by
  cases already : item.cachedImage with
  | none => simp [CachedItem.image, already]
  | some image =>
      simp only [CachedItem.image, already]
      refine ⟨(cached image already).symm, trivial, fun other same => ?_⟩
      rw [cached image already]
      exact same

theorem match_uncached (refs : Option (List ItemRef)) :
    Match initWithData (refs.map uncached) refs where
  same := by simp [uncached, Function.comp_def]
  cached item member image isCached := by
    cases refs with
    | none => cases member
    | some refs =>
        obtain ⟨ref, -, rfl⟩ := List.mem_map.mp member
        cases isCached

theorem match_append (items : List (CachedItem UIImage)) (refs : List ItemRef) (ref : ItemRef)
    (matching : Match initWithData (some items) (some refs)) :
    Match initWithData (some (items ++ uncached [ref])) (some (refs ++ [ref])) where
  same := by
    have old := Option.some.inj matching.same
    simp [uncached, old]
  cached item member := by
    rcases List.mem_append.mp member with old | new
    · exact matching.cached item old
    · exact (match_uncached initWithData (some [ref])).cached item new

theorem numberOfItems_eq (screen : Screen UIImage)
    (matching : Match initWithData screen.streamItems screen.world.controller.streamItems) :
    numberOfItemsInSection screen = (screen.world.controller.streamItems.getD []).length := by
  rw [numberOfItemsInSection, ← matching.same]
  cases screen.streamItems <;> simp

/-- An item within the array is drawn as its photo, and the array keeps its items. -/
theorem drawItemAt_spec (index : ℕ) (screen : Screen UIImage)
    (matching : Match initWithData screen.streamItems screen.world.controller.streamItems)
    (inside : index < numberOfItemsInSection screen) :
    ∃ ref items, refAt index screen.world = some ref ∧
      drawItemAt initWithData index screen =
        .ok ⟨some ref, photoImage initWithData ref, { screen with streamItems := some items }⟩ ∧
      Match initWithData (some items) screen.world.controller.streamItems ∧
        items.length = numberOfItemsInSection screen := by
  obtain ⟨items, isArray⟩ : ∃ items, screen.streamItems = some items := by
    cases array : screen.streamItems with
    | none => simp [numberOfItemsInSection, array] at inside
    | some items => exact ⟨items, rfl⟩
  rw [numberOfItemsInSection, isArray, Option.getD_some] at inside
  rw [isArray] at matching
  have found : items[index]? = some items[index] := List.getElem?_eq_getElem inside
  obtain ⟨image, kept, right⟩ := image_spec initWithData items[index] fun image isCached =>
    matching.cached items[index] (List.getElem_mem inside) image isCached
  refine ⟨items[index].ref, items.set index (items[index].image initWithData).2, ?_, ?_, ?_, ?_⟩
  · rw [refAt, ← matching.same]
    simp only [Option.map_some, Option.getD_some, List.getElem?_map, found]
  · simp only [drawItemAt, itemAt, isArray, found, Except.map, image, Option.map_some]
  · constructor
    · rw [← matching.same, Option.map_some, Option.map_some]
      exact congrArg some (RequestTable.map_settled CachedItem.ref items index items[index] _
        found kept)
    · intro item member
      rcases List.mem_or_eq_of_mem_set member with old | rfl
      · exact matching.cached item old
      · rw [kept]
        exact right
  · simp [numberOfItemsInSection, isArray]

theorem refAt_sourced (index : ℕ) (world : World) (reached : machine.Reachable world)
    (ref : ItemRef) (here : refAt index world = some ref) : Sourced world ref := by
  rw [refAt] at here
  cases shown : world.controller.streamItems with
  | none => simp [shown] at here
  | some items =>
      rw [shown] at here
      exact all_sourced world reached items shown ref (List.mem_of_getElem? here)

/-! What holds of the screen in every state of every run. -/

def PreviewShows (world : World) (preview : Preview UIImage) : Prop :=
  ∃ ref, preview.streamItem = some ref ∧ Sourced world ref ∧
    preview.title = ref.item.title ∧ preview.image = photoImage initWithData ref ∧
      preview.tapped = preview.image

structure Shows (screen : Screen UIImage) : Prop where
  reached : machine.Reachable screen.world
  safe : screen.raised = none
  items : Match initWithData screen.streamItems screen.world.controller.streamItems
  told : ∀ count, screen.collectionView.numberOfItems = some count →
    count = numberOfItemsInSection screen
  cells : ∀ index cell, screen.collectionView.visible.lookup index = some cell →
    ∃ ref, refAt index screen.world = some ref ∧ cell.image = photoImage initWithData ref
  preview : ∀ preview, screen.preview = some preview →
    PreviewShows initWithData screen.world preview

theorem previewShows_step (event : PhotoStream.Event) (before after : World)
    (taken : PhotoStream.step before event = some after) (preview : Preview UIImage)
    (shows : PreviewShows initWithData before preview) :
    PreviewShows initWithData after preview := by
  obtain ⟨ref, isItem, sourced, rest⟩ := shows
  exact ⟨ref, isItem, sourced_step event before after taken ref sourced, rest⟩

theorem shows_reloaded (event : PhotoStream.Event) (screen : Screen UIImage) (after : World)
    (items : Option (List (CachedItem UIImage))) (shows : Shows initWithData screen)
    (taken : PhotoStream.step screen.world event = some after)
    (matching : Match initWithData items after.controller.streamItems) :
    Shows initWithData (reloaded { screen with world := after, streamItems := items }) where
  reached := reachable_step machine event screen.world after shows.reached taken
  safe := shows.safe
  items := matching
  told count counted := by cases counted
  cells index cell visible := by simp [reloaded, reloadData] at visible
  preview preview presented :=
    previewShows_step initWithData event _ _ taken preview (shows.preview preview presented)

theorem shows_moved (event : PhotoStream.Event) (screen : Screen UIImage) (after : World)
    (shows : Shows initWithData screen)
    (taken : PhotoStream.step screen.world event = some after)
    (list : after.controller.streamItems = screen.world.controller.streamItems) :
    Shows initWithData { screen with world := after } where
  reached := reachable_step machine event screen.world after shows.reached taken
  safe := shows.safe
  items := list ▸ shows.items
  told := shows.told
  cells index cell visible := by
    obtain ⟨ref, here, image⟩ := shows.cells index cell visible
    refine ⟨ref, ?_, image⟩
    rw [refAt, list]
    exact here
  preview preview presented :=
    previewShows_step initWithData event _ _ taken preview (shows.preview preview presented)

/-- A created item joins the array, unless there is none. -/
theorem shows_joined (item : StreamItem) (screen : Screen UIImage) (after : World)
    (shows : Shows initWithData screen)
    (taken : PhotoStream.step screen.world (.didCreateItem (some item)) = some after)
    (list : after.controller.streamItems =
      (appended item screen.world).controller.streamItems) :
    Shows initWithData (joinItem (some item) after screen) := by
  have same := shows.items.same
  cases array : screen.streamItems with
  | none =>
      have isReload : joinItem (some item) after screen =
          reloaded { screen with world := after, streamItems := none } := by
        simp only [joinItem, array]
      have noList : after.controller.streamItems = none := by
        rw [list, appended, ← same, array]
        rfl
      rw [isReload]
      exact shows_reloaded initWithData _ screen after none shows taken
        (noList ▸ match_uncached initWithData none)
  | some items =>
      have isReload : joinItem (some item) after screen =
          reloaded { screen with
            world := after
            streamItems := some
              (items ++ uncached [⟨.created screen.world.created.length, item⟩]) } := by
        simp only [joinItem, array]
      have old := shows.items
      rw [array] at same old
      rw [← same] at old
      rw [isReload]
      apply shows_reloaded initWithData _ screen after _ shows taken
      rw [list, appended, ← same]
      exact match_append initWithData items _ ⟨.created screen.world.created.length, item⟩ old

theorem shows_refused (screen : Screen UIImage) (shows : Shows initWithData screen)
    (taken : PhotoStream.step screen.world (.didCreateItem none) = some screen.world) :
    Shows initWithData (joinItem none screen.world screen) := by
  unfold joinItem
  split
  · exact shows_reloaded initWithData _ screen screen.world screen.streamItems shows taken
      shows.items
  · contradiction
  · exact shows

theorem shows_followed (event : PhotoStream.Event) (screen : Screen UIImage) (after : World)
    (shows : Shows initWithData screen)
    (taken : PhotoStream.step screen.world event = some after) :
    Shows initWithData (follow event after screen) := by
  cases step_taken screen.world after event taken with
  | deliver request download snapshot =>
      exact shows_reloaded initWithData _ screen _ _ shows taken (match_uncached initWithData _)
  | deliverError request error download =>
      exact shows_reloaded initWithData _ screen _ _ shows taken (match_uncached initWithData _)
  | appended item => exact shows_joined initWithData item screen _ shows taken rfl
  | started item object => exact shows_joined initWithData item screen _ shows taken rfl
  | refused => exact shows_refused initWithData screen shows taken
  | _ => exact shows_moved initWithData _ screen _ shows taken rfl

theorem dequeue_frame (reused : ℕ) (view : UICollectionView UIImage) :
    (dequeueReusableCell reused view).2.numberOfItems = view.numberOfItems ∧
      (dequeueReusableCell reused view).2.visible = view.visible := by
  unfold dequeueReusableCell
  split <;> exact ⟨rfl, rfl⟩

theorem shows_cell (index reused : ℕ) (screen : Screen UIImage)
    (shows : Shows initWithData screen) (inside : index < numberOfItemsInSection screen) :
    Shows initWithData (cellForItemAtIndexPath initWithData index reused screen) := by
  -- a cell takes the photo of its place, whatever it showed before
  obtain ⟨ref, items, here, drawn, matching, length⟩ :=
    drawItemAt_spec initWithData index screen shows.items inside
  obtain ⟨number, visible⟩ := dequeue_frame reused screen.collectionView
  simp only [cellForItemAtIndexPath, drawn]
  refine ⟨shows.reached, shows.safe, matching, ?_, ?_, shows.preview⟩
  · intro count counted
    rw [shows.told count (number.symm.trans counted), ← length]
    rfl
  · intro other cell seen
    simp only [display, visible] at seen
    by_cases same : other = index
    · subst same
      rw [AList.lookup_insert] at seen
      cases seen
      exact ⟨ref, here, rfl⟩
    · rw [AList.lookup_insert_ne same] at seen
      exact shows.cells other cell seen

theorem shows_selected (index : ℕ) (cell : PhotoStreamCell UIImage) (screen : Screen UIImage)
    (shows : Shows initWithData screen)
    (visible : screen.collectionView.visible.lookup index = some cell) :
    Shows initWithData (didSelectItemAtIndexPath initWithData index cell screen) := by
  obtain ⟨ref, here, image⟩ := shows.cells index cell visible
  have inside : index < numberOfItemsInSection screen := by
    rw [numberOfItems_eq initWithData screen shows.items]
    exact (List.getElem?_eq_some_iff.mp here).1
  obtain ⟨same, items, also, drawn, matching, length⟩ :=
    drawItemAt_spec initWithData index screen shows.items inside
  cases here.symm.trans also
  simp only [didSelectItemAtIndexPath, drawn]
  refine ⟨shows.reached, shows.safe, matching, ?_, shows.cells, ?_⟩
  · intro count counted
    rw [shows.told count counted, ← length]
    rfl
  · rintro preview ⟨⟩
    exact ⟨ref, rfl, refAt_sourced index screen.world shows.reached ref here, rfl, rfl, image⟩

theorem step_shows (event : Event) (before after : Screen UIImage)
    (shows : Shows initWithData before)
    (taken : step initWithData before event = some after) : Shows initWithData after := by
  cases event with
  | stream event =>
      obtain ⟨world, moved, rfl⟩ := Option.map_eq_some_iff.mp taken
      exact shows_followed initWithData event before world shows moved
  | layout =>
      simp only [step] at taken
      split at taken
      · cases taken
      · cases taken
        exact ⟨shows.reached, shows.safe, shows.items, fun count counted => by
          cases counted
          rfl, shows.cells, shows.preview⟩
  | display index reused =>
      simp only [step] at taken
      split at taken
      · rename_i count told _
        rw [Option.ite_none_right_eq_some] at taken
        obtain ⟨inside, same⟩ := taken
        cases same
        exact shows_cell initWithData index reused before shows
          (shows.told count told ▸ inside)
      · cases taken
  | endDisplaying index =>
      cases taken
      refine ⟨shows.reached, shows.safe, shows.items, shows.told, ?_, shows.preview⟩
      intro other cell seen
      by_cases same : other = index
      · subst same
        simp [endDisplaying] at seen
      · simp only [endDisplaying, AList.lookup_erase_ne same] at seen
        exact shows.cells other cell seen
  | select index =>
      simp only [step] at taken
      split at taken
      · rename_i cell visible _
        cases taken
        exact shows_selected initWithData index cell before shows visible
      · cases taken
  | done =>
      cases taken
      exact ⟨shows.reached, shows.safe, shows.items, shows.told, shows.cells, by rintro _ ⟨⟩⟩

theorem shows_throughout (events : List Event) :
    (screenMachine initWithData).Throughout (Shows initWithData) events := by
  intro before screen _ run
  refine reaches_invariant (screenMachine initWithData) (Shows initWithData) ?_
    (fun event before after => step_shows initWithData event before after) before screen run
  exact ⟨reachable_initial machine, rfl, match_uncached initWithData none, by rintro _ ⟨⟩,
    by simp [screenMachine], by rintro _ ⟨⟩⟩

/-- The view is never told of more or fewer items than there are, and so it never
asks for one beyond the end. -/
theorem never_out_of_range (events : List Event) :
    (screenMachine initWithData).Throughout (fun screen => screen.raised = none ∧
      ∀ count, screen.collectionView.numberOfItems = some count →
        count = (screen.world.controller.streamItems.getD []).length) events := by
  intro before screen inside run
  have shows := shows_throughout initWithData events before screen inside run
  refine ⟨shows.safe, fun count counted => ?_⟩
  rw [shows.told count counted, numberOfItems_eq initWithData screen shows.items]

theorem place_of_photo (world : World) (reached : machine.Reachable world) (first second : ℕ)
    (ref other : ItemRef) (here : refAt first world = some ref)
    (there : refAt second world = some other) (same : photo other = photo ref) :
    second = first := by
  have once := SnapshotDisplay.never_shown_twice (ShownOnce.display world)
    (ShownOnce.refinement.reachable world reached)
  have inside := (List.getElem?_eq_some_iff.mp there).1
  apply (List.getElem?_inj (by simpa [ShownOnce.display] using inside) once).mp
  simp only [ShownOnce.display, List.getElem?_map]
  rw [refAt] at here there
  rw [here, there, Option.map_some, Option.map_some, same]

/-- A visible cell shows the photo that is at its place in the list now: bytes that
are stored or were created here, and that no other cell shows. -/
theorem cells_show_photos (events : List Event) :
    (screenMachine initWithData).Throughout (fun screen =>
      ∀ index cell, screen.collectionView.visible.lookup index = some cell →
        ∃ ref, refAt index screen.world = some ref ∧ Sourced screen.world ref ∧
          cell.image = photoImage initWithData ref ∧
            ∀ place other, refAt place screen.world = some other → photo other = photo ref →
              place = index) events := by
  intro before screen inside run index cell visible
  have shows := shows_throughout initWithData events before screen inside run
  obtain ⟨ref, here, image⟩ := shows.cells index cell visible
  refine ⟨ref, here, refAt_sourced index screen.world shows.reached ref here, image, ?_⟩
  intro place other there same
  exact place_of_photo screen.world shows.reached index place ref other here there same

end CollectionViewWorkshop.PhotoStreamScreen
