import CollectionViewWorkshop.PhotoStreamInvariants
import CollectionViewWorkshop.SnapshotDisplay

/-!
The photo stream refines a display of photos: a created item adds its photo, or
only uses it while there is no list to add to, and the object stored for it
brings no further one.
-/

namespace CollectionViewWorkshop.ShownOnce

open ParseService PartialRuns PhotoStream PhotoStreamInvariants RequestTable
open StreamItemTransformer
open SnapshotDisplay (Display)

def snapshotPhotos (snapshot : Snapshot) : List Photo :=
  snapshot.objects.map storedPhoto

def usedPhotos (created : ℕ) (store : Store) : Finset Photo :=
  (Finset.range created).image Photo.created ∪ (store.objects.map storedPhoto).toFinset

def answer (download : Download) : Option (List Photo) :=
  (snapshotOf download.phase).map snapshotPhotos

def display (world : World) : Display Photo where
  used := usedPhotos world.created.length world.store
  answers := world.downloads.map answer
  shown := (world.controller.streamItems.getD []).map photo

structure Requests (world : World) : Prop where
  snapshots : SnapshotsStored world.downloads world.store
  uploads : UploadsTracked world.uploads world.created world.store

theorem mem_usedPhotos_iff (created : ℕ) (store : Store) (key : Photo) :
    key ∈ usedPhotos created store ↔
      (∃ index < created, .created index = key) ∨
        ∃ stored ∈ store.objects, storedPhoto stored = key := by
  simp [usedPhotos]

theorem usedPhotos_created (created : ℕ) (store : Store) :
    usedPhotos (created + 1) store = insert (.created created) (usedPhotos created store) := by
  simp [usedPhotos, Finset.range_add_one]

theorem usedPhotos_save (created : ℕ) (store : Store) (savedFrom : Option ℕ)
    (object : PFObject) :
    usedPhotos created (store.save savedFrom object) =
      insert (storedPhoto ⟨store.objects.length, savedFrom, object⟩)
        (usedPhotos created store) := by
  simp only [usedPhotos, Store.save, List.map_append, List.map_singleton, List.toFinset_append,
    List.toFinset_cons, List.toFinset_nil]
  rw [← Finset.union_assoc, Finset.union_comm, Finset.insert_union, Finset.empty_union]

theorem created_photo_fresh (world : World) (sound : Requests world) :
    .created world.created.length ∉ (display world).used := by
  rw [display, mem_usedPhotos_iff]
  rintro (⟨index, inside, same⟩ | ⟨stored, member, same⟩)
  · cases same
    exact Nat.lt_irrefl _ inside
  · exact sound.uploads.not_stored_yet stored member ((storedPhoto_created_iff stored _).mp same)

theorem foreign_photo_unused (world : World) :
    .foreign world.store.objects.length ∉ (display world).used := by
  rw [display, mem_usedPhotos_iff]
  rintro (⟨index, -, same⟩ | ⟨stored, member, same⟩)
  · cases same
  · exact foreign_photo_fresh world.store stored member same

theorem snapshot_listed (world : World) (sound : Requests world) (objects : List StoredObject)
    (once : objects.Nodup) (inside : objects ⊆ world.store.objects) :
    SnapshotDisplay.Listed (display world).used (objects.map storedPhoto) := by
  constructor
  · apply once.map_on
    intro left leftMember right rightMember same
    exact List.inj_on_of_nodup_map sound.uploads.photos (inside leftMember)
      (inside rightMember) same
  · intro key member
    obtain ⟨stored, listed, rfl⟩ := List.mem_map.mp member
    exact (mem_usedPhotos_iff _ _ _).mpr (Or.inr ⟨stored, inside listed, rfl⟩)

theorem requests_step (event : Event) (before after : World) (sound : Requests before)
    (taken : step before event = some after) : Requests after :=
  ⟨snapshotsStored_step event before after sound.snapshots taken,
    uploadsTracked_step event before after sound.uploads taken⟩

/-- A created item is added to the list, or only used while there is none. -/
theorem appended_matched (item : StreamItem) (world : World) (sound : Requests world) :
    ∃ shown, SnapshotDisplay.step (display world) shown =
      some (display (appended item world)) := by
  have fresh := created_photo_fresh world sound
  cases items : world.controller.streamItems with
  | none =>
      refine ⟨.use (.created world.created.length), ?_⟩
      rw [SnapshotDisplay.step, if_neg fresh]
      simp [display, appended, items, usedPhotos_created]
  | some shown =>
      refine ⟨.add (.created world.created.length), ?_⟩
      rw [SnapshotDisplay.step, if_neg fresh]
      simp [display, appended, items, usedPhotos_created, photo]

-- The object brings no new photo: its item used the photo when it was created.
theorem commit_matched (index : ℕ) (upload : Upload) (world : World) (sound : Requests world)
    (found : world.uploads[index]? = some upload) :
    display (commit index upload world) = display world := by
  obtain ⟨made, item, isItem, inList, -⟩ :=
    sound.uploads.started upload (List.mem_of_getElem? found)
  have owner : savedFrom upload = some made := by simp [savedFrom, isItem]
  have used : .created made ∈ usedPhotos world.created.length world.store :=
    (mem_usedPhotos_iff _ _ _).mpr
      (Or.inl ⟨made, (List.getElem?_eq_some_iff.mp inList).1, rfl⟩)
  have same : usedPhotos world.created.length (world.store.save (savedFrom upload) upload.object) =
      usedPhotos world.created.length world.store := by
    rw [usedPhotos_save, (storedPhoto_created_iff _ made).mpr owner, Finset.insert_eq_of_mem used]
  simp only [display, commit, same]

theorem matched (event : Event) (before after : World) (sound : Requests before)
    (taken : step before event = some after) :
    display after = display before ∨
      ∃ shown, SnapshotDisplay.step (display before) shown = some (display after) := by
  cases step_taken before after event taken with
  | viewDidLoad =>
      refine Or.inr ⟨.ask, ?_⟩
      simp [SnapshotDisplay.step, display, viewDidLoad, downloadStreamItems, answer, snapshotOf]
  | didPullToRefresh =>
      refine Or.inr ⟨.ask, ?_⟩
      simp [SnapshotDisplay.step, display, didPullToRefresh, downloadStreamItems, answer,
        snapshotOf]
  | answer request objects download found waiting answers =>
      have listed := snapshot_listed before sound objects answers.1
        (answers_subset before.store download.query objects answers)
      refine Or.inr ⟨.answer request (objects.map storedPhoto), ?_⟩
      rw [SnapshotDisplay.step, if_pos listed]
      simp [display, setDownload, List.map_set, answer, snapshotOf, snapshotPhotos]
  | deliver request download snapshot found answered =>
      have held : answer download = some (snapshotPhotos snapshot) := by
        simp [answer, answered, snapshotOf]
      have kept := map_settled answer before.downloads request download
        { download with phase := .delivered snapshot } found (by rw [held]; rfl)
      have shown : (snapshot.objects.map decodedItem).map photo = snapshotPhotos snapshot := by
        rw [List.map_map]
        rfl
      refine Or.inr ⟨.replace request (snapshotPhotos snapshot), ?_⟩
      rw [SnapshotDisplay.step, if_pos (by simp [display, found, held])]
      simp only [display, deliver_streamItems, Option.getD_some, shown]
      simp only [deliver, setDownload, kept]
  | deliverError request error download =>
      refine Or.inr ⟨.clear request, ?_⟩
      simp only [SnapshotDisplay.step, display, deliverError_streamItems, Option.getD_some,
        List.map_nil]
      simp [deliverError, setDownload, List.map_set, answer, snapshotOf]
  | appended made => exact Or.inr (appended_matched made before sound)
  | started made object => exact Or.inr (appended_matched made before sound)
  | commit request upload found =>
      exact Or.inl (commit_matched request upload before sound found)
  | otherClientSaves object =>
      refine Or.inr ⟨.use (.foreign before.store.objects.length), ?_⟩
      rw [SnapshotDisplay.step, if_neg (foreign_photo_unused before)]
      simp [otherClientSaves, display, usedPhotos_save, storedPhoto]
  | refused => exact Or.inl rfl
  | reportSuccess => exact Or.inl rfl
  | reportFailure => exact Or.inl rfl
  | tick => exact Or.inl rfl

def refinement :
    Refinement machine (SnapshotDisplay.machine : Machine (Display Photo) _) where
  view := display
  inv := Requests
  start := by
    simp [display, machine, SnapshotDisplay.machine, usedPhotos, Store.empty]
  invStart := by
    constructor
    · exact snapshots_stored machine.initial (reachable_initial machine)
    · exact uploads_tracked machine.initial (reachable_initial machine)
  invKeep := requests_step
  matched := matched

/-- In every reachable world no two shown items stand for the same photo. -/
theorem no_photo_shown_twice (world : World) (reached : machine.Reachable world)
    (items : List ItemRef) (shown : world.controller.streamItems = some items) :
    (items.map photo).Nodup := by
  have once := SnapshotDisplay.never_shown_twice (display world)
    (refinement.reachable world reached)
  simpa [refinement, display, shown] using once

/-- A created item is saved, downloaded again and joined by a second one. -/
def savedAndRefreshed : List Event :=
  firstDownload ++ [.didCreateItem (some smallItem), .commit 0, .didPullToRefresh,
    .answer 1 [⟨0, some 0, encoded [255] "a" ⟨4, 3⟩⟩], .deliver 1,
    .didCreateItem (some smallItem)]

theorem no_photo_shown_twice_refreshed :
    ∃ world items, machine.Reaches savedAndRefreshed world ∧
      world.controller.streamItems = some items ∧
      items.map photo = [.created 0, .created 1] ∧ (items.map photo).Nodup :=
  ⟨_, _, rfl, rfl, rfl, no_photo_shown_twice _ ⟨savedAndRefreshed, rfl⟩ _ rfl⟩

end CollectionViewWorkshop.ShownOnce
