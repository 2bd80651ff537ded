import CollectionViewWorkshop.PhotoStreamInvariants

/-!
The fate of the items handed to `streamItemCreator:didCreateItem:`: whether the
stream still shows them, and whether what it shows is stored or being saved.
Both laws are about every state of a run, and each comes with the condition on
single events under which a run keeps it.
-/

namespace CollectionViewWorkshop.CreatedPhotos

open ObjectiveC ParseService PartialRuns PhotoStream PhotoStreamInvariants RequestTable
open StreamItemTransformer

def Shows (controller : Controller) (index : ℕ) : Prop :=
  ∃ items, controller.streamItems = some items ∧
    ∃ ref ∈ items, photo ref = .created index ∧ ReadFromObject ref

def ReportedFailed (uploads : List Upload) (index : ℕ) : Prop :=
  ∃ upload ∈ uploads, upload.item.origin = .created index ∧ upload.reported = some false

/-- The item was handed over with data and a title, and no failure was reported for it. -/
def Owed (world : World) (index : ℕ) : Prop :=
  (∃ item, world.created[index]? = some item ∧ item.Complete) ∧
    ¬ ReportedFailed world.uploads index

def NoneLost (world : World) : Prop :=
  ∀ index, Owed world index → Shows world.controller index

/-- An item is handed over once there is a list, a delivered snapshot holds the
object of every owed item, and a download fails only while none is owed. -/
def KeepsOwed (_ : List Event) (world : World) : Event → Prop
  | .deliver request =>
      ∀ download snapshot, world.downloads[request]? = some download →
        download.phase = .answered snapshot →
          ∀ index, Owed world index → ∃ stored ∈ snapshot.objects, stored.savedFrom = some index
  | .deliverError _ _ => ∀ index, ¬ Owed world index
  | .didCreateItem (some item) => item.Complete → world.controller.streamItems ≠ none
  | _ => True

theorem noneLost_of_frame (before after : World) (law : NoneLost before)
    (created : after.created = before.created)
    (shown : after.controller.streamItems = before.controller.streamItems)
    (reports : ∀ index, ReportedFailed before.uploads index →
      ReportedFailed after.uploads index) : NoneLost after := by
  rintro index ⟨handed, unfailed⟩
  rw [created] at handed
  obtain ⟨items, isList, member⟩ := law index ⟨handed, fun failed =>
    unfailed (reports index failed)⟩
  exact ⟨items, shown.trans isList, member⟩

theorem reportedFailed_settled (uploads : List Upload) (request : ℕ) (old new : Upload)
    (found : uploads[request]? = some old) (item : new.item = old.item)
    (kept : old.reported = some false → new.reported = some false) (index : ℕ)
    (failed : ReportedFailed uploads index) :
    ReportedFailed (uploads.set request new) index := by
  apply some_settled _ uploads request old new found failed
  rintro ⟨origin, reported⟩
  exact ⟨item ▸ origin, kept reported⟩

theorem shows_deliver_iff (request : ℕ) (download : Download) (snapshot : Snapshot)
    (world : World) (index : ℕ) :
    Shows (deliver request download snapshot world).controller index ↔
      ∃ stored ∈ snapshot.objects, stored.savedFrom = some index := by
  simp [Shows, deliver_streamItems, photo_decodedItem, storedPhoto_created_iff]

theorem shows_deliverError (request : ℕ) (download : Download) (error : NSError)
    (world : World) (index : ℕ) :
    ¬ Shows (deliverError request download error world).controller index := by
  simp [Shows, deliverError_streamItems]

theorem shows_appended (item : StreamItem) (world : World) (index : ℕ)
    (shows : Shows world.controller index) : Shows (appended item world).controller index := by
  obtain ⟨items, isList, ref, member, same⟩ := shows
  refine ⟨items ++ [⟨.created world.created.length, item⟩], by simp [appended, isList], ref, ?_,
    same⟩
  exact List.mem_append_left _ member

theorem shows_appended_iff (item : StreamItem) (world : World) :
    Shows (appended item world).controller world.created.length ↔
      world.controller.streamItems ≠ none := by
  constructor
  · rintro ⟨items, isList, -⟩ absent
    simp [appended, absent] at isList
  · intro present
    obtain ⟨items, isList⟩ := Option.ne_none_iff_exists'.mp present
    exact ⟨items ++ [⟨.created world.created.length, item⟩], by simp [appended, isList],
      ⟨.created world.created.length, item⟩, by simp, rfl, by rintro stored ⟨⟩⟩

theorem noneLost_appended (item : StreamItem) (world : World) (law : NoneLost world)
    (incomplete : ¬ item.Complete) : NoneLost (appended item world) := by
  rintro index ⟨⟨made, found, complete⟩, unfailed⟩
  rcases entered_cases world.created item made index found with ⟨-, rfl⟩ | old
  · exact absurd complete incomplete
  · exact shows_appended item world index (law index ⟨⟨made, old, complete⟩, unfailed⟩)

-- Without a list the new item is the first one lost; older ones are kept either way.
theorem noneLost_started_iff (item : StreamItem) (object : PFObject) (world : World)
    (tracked : UploadsTracked world.uploads world.created world.store)
    (law : NoneLost world) (complete : item.Complete) :
    NoneLost (started item object world) ↔ world.controller.streamItems ≠ none := by
  rw [← shows_appended_iff item world]
  have fresh := not_uploaded_yet world.created world.uploads tracked.started
  constructor
  · intro kept
    refine kept world.created.length ⟨⟨item, by simp [started, appended], complete⟩, ?_⟩
    rintro ⟨upload, member, origin, reported⟩
    rcases List.mem_append.mp member with old | new
    · exact fresh upload old origin
    · rw [List.mem_singleton.mp new] at reported
      cases reported
  · rintro shown index ⟨⟨made, found, madeComplete⟩, unfailed⟩
    rcases entered_cases world.created item made index found with ⟨rfl, -⟩ | old
    · exact shown
    · refine shows_appended item world index (law index ⟨⟨made, old, madeComplete⟩, ?_⟩)
      rintro ⟨upload, member, failed⟩
      exact unfailed ⟨upload, List.mem_append_left _ member, failed⟩

theorem noneLost_step (events : List Event) (event : Event) (before after : World)
    (run : machine.Reaches events before) (law : NoneLost before)
    (taken : machine.step before event = some after) :
    NoneLost after ↔ KeepsOwed events before event := by
  cases step_taken before after event taken with
  | deliver request download snapshot found answered =>
      have shown := shows_deliver_iff request download snapshot before
      constructor
      · intro kept other otherSnapshot otherFound otherAnswered index owed
        cases found.symm.trans otherFound
        cases answered.symm.trans otherAnswered
        exact (shown index).mp (kept index owed)
      · intro listed index owed
        exact (shown index).mpr (listed download snapshot found answered index owed)
  | deliverError request error download =>
      constructor
      · intro kept index owed
        exact shows_deliverError request download error before index (kept index owed)
      · intro noneOwed index owed
        exact absurd owed (noneOwed index)
  | appended made incomplete =>
      exact iff_of_true (noneLost_appended made before law incomplete)
        fun complete => absurd complete incomplete
  | started made object parsed =>
      have complete := (parseObject_isOk_iff_complete made).mp ⟨object, parsed⟩
      rw [noneLost_started_iff made object before (uploads_tracked before ⟨events, run⟩) law
        complete]
      exact ⟨fun present _ => present, fun present => present complete⟩
  | commit request upload found =>
      exact iff_of_true (noneLost_of_frame before _ law rfl rfl
        (reportedFailed_settled before.uploads request upload _ found rfl id)) trivial
  | reportSuccess request upload found committed unreported =>
      refine iff_of_true (noneLost_of_frame before _ law rfl rfl
        (reportedFailed_settled before.uploads request upload _ found rfl ?_)) trivial
      simp [unreported]
  | reportFailure request error upload found =>
      exact iff_of_true (noneLost_of_frame before _ law rfl rfl
        (reportedFailed_settled before.uploads request upload _ found rfl fun _ => rfl)) trivial
  | viewDidLoad => exact iff_of_true law trivial
  | didPullToRefresh => exact iff_of_true law trivial
  | answer => exact iff_of_true law trivial
  | refused => exact iff_of_true law trivial
  | otherClientSaves => exact iff_of_true law trivial
  | tick => exact iff_of_true law trivial

/-- No created photo is lost in any state of a run exactly when each of its
events keeps the photos that are owed. -/
theorem none_lost_iff (events : List Event) :
    machine.Throughout NoneLost events ↔ machine.EachStep KeepsOwed events := by
  apply throughout_iff_eachStep machine NoneLost KeepsOwed _ noneLost_step
  rintro index ⟨⟨item, found, -⟩, -⟩
  simp [machine] at found

/-- The item is created before the first download is delivered: nothing holds it. -/
theorem created_before_first_download_lost :
    ∃ world, machine.Reaches [.viewDidLoad, .didCreateItem (some smallItem)] world ∧
      Owed world 0 ∧ ¬ Shows world.controller 0 := by
  refine ⟨_, rfl, ⟨⟨smallItem, rfl, rfl, rfl⟩, ?_⟩, ?_⟩
  · rintro ⟨upload, member, -, reported⟩
    cases List.mem_singleton.mp member
    cases reported
  · rintro ⟨items, isList, -⟩
    cases isList

def Saved (store : Store) (index : ℕ) : Prop :=
  ∃ stored ∈ store.objects, stored.savedFrom = some index

def Saving (uploads : List Upload) (index : ℕ) : Prop :=
  ∃ upload ∈ uploads, upload.item.origin = .created index ∧ upload.reported ≠ some false

/-- A decoded item is backed by its stored object, which it was read from, and a
created one by `created`. -/
def Backed (store : Store) (created : ℕ → Prop) (ref : ItemRef) : Prop :=
  match ref.origin with
  | .decoded stored =>
      stored ∈ store.objects ∧ ref.item = streamItemFromParseObject stored.object
  | .created index => created index

def StoredOrSaving (world : World) : ItemRef → Prop :=
  Backed world.store fun index => Saved world.store index ∨ Saving world.uploads index

/-- What is left of the law when a reported failure changes nothing. -/
def StoredOrStarted (world : World) (ref : ItemRef) : Prop :=
  Backed world.store (fun _ => ref.item.Complete → ∃ upload ∈ world.uploads, upload.item = ref) ref

def AllStoredOrSaving (world : World) : Prop :=
  AllShown world.controller (StoredOrSaving world)

def AllStoredOrStarted (world : World) : Prop :=
  AllShown world.controller (StoredOrStarted world)

def Listed (controller : Controller) (index : ℕ) : Prop :=
  ∃ items, controller.streamItems = some items ∧ ∃ ref ∈ items, ref.origin = .created index

/-- A failure is reported only for an item that is stored or not in the list, and
an item without data or title is handed over only while there is no list. -/
def KeepsStored (_ : List Event) (world : World) : Event → Prop
  | .reportFailure request _ =>
      ∀ upload index, world.uploads[request]? = some upload → savedFrom upload = some index →
        Listed world.controller index → Saved world.store index
  | .didCreateItem (some item) => ¬ item.Complete → world.controller.streamItems = none
  | _ => True

theorem backed_mono (before after : Store) (created kept : ℕ → Prop) (ref : ItemRef)
    (store : before.objects ⊆ after.objects)
    (mono : ∀ index, ref.origin = .created index → created index → kept index)
    (held : Backed before created ref) : Backed after kept ref := by
  cases origin : ref.origin with
  | decoded stored =>
      simp only [Backed, origin] at held ⊢
      exact ⟨store held.1, held.2⟩
  | created index =>
      simp only [Backed, origin] at held ⊢
      exact mono index origin held

theorem saved_mono (before after : Store) (index : ℕ) (store : before.objects ⊆ after.objects)
    (saved : Saved before index) : Saved after index := by
  obtain ⟨stored, member, same⟩ := saved
  exact ⟨stored, store member, same⟩

theorem storedOrSaving_mono (before after : World) (ref : ItemRef)
    (store : before.store.objects ⊆ after.store.objects)
    (saving : ∀ index, ref.origin = .created index → Saving before.uploads index →
      Saving after.uploads index)
    (held : StoredOrSaving before ref) : StoredOrSaving after ref := by
  apply backed_mono before.store after.store _ _ ref store _ held
  rintro index origin (saved | started)
  · exact Or.inl (saved_mono before.store after.store index store saved)
  · exact Or.inr (saving index origin started)

theorem storedOrStarted_mono (before after : World) (ref : ItemRef)
    (store : before.store.objects ⊆ after.store.objects)
    (uploads : (∃ upload ∈ before.uploads, upload.item = ref) →
      ∃ upload ∈ after.uploads, upload.item = ref)
    (held : StoredOrStarted before ref) : StoredOrStarted after ref :=
  backed_mono before.store after.store _ _ ref store
    (fun _ _ started complete => uploads (started complete)) held

theorem saving_settled (uploads : List Upload) (request : ℕ) (old new : Upload)
    (found : uploads[request]? = some old) (item : new.item = old.item)
    (kept : old.reported ≠ some false → new.reported ≠ some false) (index : ℕ)
    (saving : Saving uploads index) : Saving (uploads.set request new) index := by
  apply some_settled _ uploads request old new found saving
  rintro ⟨origin, unfailed⟩
  exact ⟨item ▸ origin, kept unfailed⟩

theorem upload_settled (uploads : List Upload) (request : ℕ) (old new : Upload)
    (found : uploads[request]? = some old) (item : new.item = old.item) (ref : ItemRef)
    (present : ∃ upload ∈ uploads, upload.item = ref) :
    ∃ upload ∈ uploads.set request new, upload.item = ref :=
  some_settled _ uploads request old new found present fun same => item.trans same

theorem not_saving_failed (uploads : List Upload) (request : ℕ) (upload failed : Upload)
    (distinct : (uploads.map fun upload => upload.item.origin).Nodup)
    (found : uploads[request]? = some upload) (item : failed.item = upload.item)
    (reported : failed.reported = some false) (index : ℕ)
    (origin : upload.item.origin = .created index) :
    ¬ Saving (uploads.set request failed) index := by
  -- the upload that failed was the only one of its item
  rintro ⟨other, member, same, unfailed⟩
  have settledDistinct := map_settled (fun upload => upload.item.origin) uploads request upload
    failed found (by rw [item])
  have isFailed := List.inj_on_of_nodup_map (settledDistinct ▸ distinct) member
    (settled_mem uploads request upload failed found) (by rw [same, item, origin])
  exact unfailed (isFailed ▸ reported)

theorem savedFrom_iff (upload : Upload) (index : ℕ) :
    savedFrom upload = some index ↔ upload.item.origin = .created index := by
  cases origin : upload.item.origin <;> simp [savedFrom, origin]

theorem allStored_failed_iff (request : ℕ) (upload : Upload) (error : NSError) (world : World)
    (tracked : UploadsTracked world.uploads world.created world.store)
    (law : AllStoredOrSaving world) (found : world.uploads[request]? = some upload) :
    AllStoredOrSaving (report request upload false (some error) world) ↔
      ∀ index, savedFrom upload = some index →
        Listed world.controller index → Saved world.store index := by
  constructor
  · rintro kept index isFrom ⟨items, isList, ref, member, origin⟩
    have held := kept items isList ref member
    simp only [StoredOrSaving, Backed, origin] at held
    rcases held with stored | saving
    · exact stored
    · exact absurd saving (not_saving_failed world.uploads request upload
        { upload with reported := some false } tracked.distinct found rfl rfl index
        ((savedFrom_iff upload index).mp isFrom))
  · intro stored items isList ref member
    by_cases same : ref.origin = upload.item.origin
    · obtain ⟨index, item, isItem, -⟩ := tracked.started upload (List.mem_of_getElem? found)
      have origin : upload.item.origin = .created index := by rw [isItem]
      simp only [StoredOrSaving, Backed, same, origin]
      exact Or.inl (stored index ((savedFrom_iff upload index).mpr origin)
        ⟨items, isList, ref, member, same.trans origin⟩)
    · apply storedOrSaving_mono world (report request upload false (some error) world) ref
        (List.Subset.refl _) _ (law items isList ref member)
      intro index origin saving
      apply some_settled _ world.uploads request upload _ found saving
      -- another item's upload is not the one that failed
      rintro ⟨failedOrigin, -⟩
      exact absurd (origin.trans failedOrigin.symm) same

theorem allStored_appended_iff (item : StreamItem) (world : World)
    (tracked : UploadsTracked world.uploads world.created world.store)
    (law : AllStoredOrSaving world) :
    AllStoredOrSaving (appended item world) ↔ world.controller.streamItems = none := by
  have unbacked : ¬ StoredOrSaving world ⟨.created world.created.length, item⟩ := by
    rintro (⟨stored, member, same⟩ | ⟨upload, member, same, -⟩)
    · exact tracked.not_stored_yet stored member same
    · exact not_uploaded_yet world.created world.uploads tracked.started upload member same
  have joined := allShown_appended_iff item world (StoredOrSaving world)
  constructor
  · intro kept
    exact (joined.mp kept).2.resolve_right unbacked
  · intro absent
    exact joined.mpr ⟨law, Or.inl absent⟩

theorem allStored_started (item : StreamItem) (object : PFObject) (world : World)
    (law : AllStoredOrSaving world) : AllStoredOrSaving (started item object world) := by
  apply (allShown_appended_iff item world (StoredOrSaving (started item object world))).mpr
  constructor
  · refine allShown_mono world.controller world.controller _ _ rfl ?_ law
    intro ref
    apply storedOrSaving_mono world (started item object world) ref (List.Subset.refl _)
    rintro index - ⟨upload, member, saving⟩
    exact ⟨upload, List.mem_append_left _ member, saving⟩
  · exact Or.inr (Or.inr ⟨⟨⟨.created world.created.length, item⟩, object, false, none⟩,
      List.mem_append_right _ (List.mem_singleton_self _), rfl, by simp⟩)

theorem allStored_of_frame (before after : World) (law : AllStoredOrSaving before)
    (shown : after.controller.streamItems = before.controller.streamItems)
    (store : before.store.objects ⊆ after.store.objects)
    (saving : ∀ index, Saving before.uploads index → Saving after.uploads index) :
    AllStoredOrSaving after := by
  refine allShown_mono before.controller after.controller _ _ shown ?_ law
  intro ref
  exact storedOrSaving_mono before after ref store fun index _ => saving index

theorem allStored_step (events : List Event) (event : Event) (before after : World)
    (run : machine.Reaches events before) (law : AllStoredOrSaving before)
    (taken : machine.step before event = some after) :
    AllStoredOrSaving after ↔ KeepsStored events before event := by
  have tracked := uploads_tracked before ⟨events, run⟩
  cases step_taken before after event taken with
  | deliver request download snapshot found answered =>
      have inside := (snapshots_stored before ⟨events, run⟩).answered request download snapshot
        found answered
      exact iff_of_true ((allShown_deliver_iff ..).mpr fun stored listed => ⟨inside listed, rfl⟩) trivial
  | deliverError request error download =>
      exact iff_of_true (allShown_deliverError request download error before _) trivial
  | appended made incomplete =>
      rw [allStored_appended_iff made before tracked law]
      exact ⟨fun absent _ => absent, fun absent => absent incomplete⟩
  | started made object parsed =>
      have complete := (parseObject_isOk_iff_complete made).mp ⟨object, parsed⟩
      exact iff_of_true (allStored_started made object before law)
        fun incomplete => absurd complete incomplete
  | commit request upload found =>
      exact iff_of_true (allStored_of_frame before _ law rfl
        (before.store.subset_save (savedFrom upload) upload.object)
        (saving_settled before.uploads request upload _ found rfl id)) trivial
  | reportSuccess request upload found =>
      refine iff_of_true (allStored_of_frame before _ law rfl (List.Subset.refl _)
        (saving_settled before.uploads request upload _ found rfl ?_)) trivial
      simp
  | reportFailure request error upload found =>
      rw [allStored_failed_iff request upload error before tracked law found]
      constructor
      · intro stored other index otherFound
        cases found.symm.trans otherFound
        exact stored index
      · intro stored index
        exact stored upload index found
  | otherClientSaves object =>
      exact iff_of_true (allStored_of_frame before _ law rfl (before.store.subset_save none object)
        fun _ => id) trivial
  | viewDidLoad => exact iff_of_true law trivial
  | didPullToRefresh => exact iff_of_true law trivial
  | answer => exact iff_of_true law trivial
  | refused => exact iff_of_true law trivial
  | tick => exact iff_of_true law trivial

theorem allStarted_of_frame (before after : World) (law : AllStoredOrStarted before)
    (shown : after.controller.streamItems = before.controller.streamItems)
    (store : before.store.objects ⊆ after.store.objects)
    (uploads : ∀ ref, (∃ upload ∈ before.uploads, upload.item = ref) →
      ∃ upload ∈ after.uploads, upload.item = ref) : AllStoredOrStarted after := by
  refine allShown_mono before.controller after.controller _ _ shown ?_ law
  intro ref
  exact storedOrStarted_mono before after ref store (uploads ref)

theorem allStarted_started (item : StreamItem) (object : PFObject) (world : World)
    (law : AllStoredOrStarted world) : AllStoredOrStarted (started item object world) := by
  apply (allShown_appended_iff item world (StoredOrStarted (started item object world))).mpr
  constructor
  · refine allShown_mono world.controller world.controller _ _ rfl ?_ law
    intro ref
    apply storedOrStarted_mono world (started item object world) ref (List.Subset.refl _)
    rintro ⟨upload, member, same⟩
    exact ⟨upload, List.mem_append_left _ member, same⟩
  · exact Or.inr fun _ => ⟨_, List.mem_append_right _ (List.mem_singleton_self _), rfl⟩

theorem allStarted_step (event : Event) (before after : World)
    (snapshots : SnapshotsStored before.downloads before.store)
    (law : AllStoredOrStarted before) (taken : step before event = some after) :
    AllStoredOrStarted after := by
  cases step_taken before after event taken with
  | deliver request download snapshot found answered =>
      have inside := snapshots.answered request download snapshot found answered
      exact (allShown_deliver_iff ..).mpr fun stored listed => ⟨inside listed, rfl⟩
  | deliverError request error download =>
      exact allShown_deliverError request download error before _
  | appended made incomplete =>
      exact (allShown_appended_iff made before _).mpr
        ⟨law, Or.inr fun complete => absurd complete incomplete⟩
  | started made object => exact allStarted_started made object before law
  | commit request upload found =>
      exact allStarted_of_frame before _ law rfl
        (before.store.subset_save (savedFrom upload) upload.object)
        (upload_settled before.uploads request upload _ found rfl)
  | reportSuccess request upload found =>
      exact allStarted_of_frame before _ law rfl (List.Subset.refl _)
        (upload_settled before.uploads request upload _ found rfl)
  | reportFailure request error upload found =>
      exact allStarted_of_frame before _ law rfl (List.Subset.refl _)
        (upload_settled before.uploads request upload _ found rfl)
  | otherClientSaves object =>
      exact allStarted_of_frame before _ law rfl (before.store.subset_save none object)
        fun _ => id
  | viewDidLoad => exact law
  | didPullToRefresh => exact law
  | answer => exact law
  | refused => exact law
  | tick => exact law

theorem all_started (world : World) (reached : machine.Reachable world) :
    AllStoredOrStarted world := by
  have both := reachable_invariant machine
    (fun world => SnapshotsStored world.downloads world.store ∧ AllStoredOrStarted world)
    ⟨snapshots_stored machine.initial (reachable_initial machine), by rintro items ⟨⟩⟩
    (fun event before after held taken =>
      ⟨snapshotsStored_step event before after held.1 taken,
        allStarted_step event before after held.1 held.2 taken⟩)
    world reached
  exact both.2

/-- Every photo shown is stored or its upload was started, in every state of
every run; it is stored or still being saved in every state of a run exactly
when none of the events leaves a shown photo without both. -/
theorem all_stored_or_saving_iff (events : List Event) :
    machine.Throughout AllStoredOrStarted events ∧
      (machine.Throughout AllStoredOrSaving events ↔ machine.EachStep KeepsStored events) := by
  constructor
  · intro before world _ run
    exact all_started world ⟨before, run⟩
  · apply throughout_iff_eachStep machine AllStoredOrSaving KeepsStored _ allStored_step
    intro items isList
    cases isList

/-- The upload of a shown item fails and the item stays in the list. -/
theorem failed_upload_still_shown :
    ∃ world, machine.Reaches
        (firstDownload ++ [.didCreateItem (some smallItem), .reportFailure 0 ⟨100⟩]) world ∧
      world.controller.streamItems = some [⟨.created 0, smallItem⟩] ∧
      ¬ AllStoredOrSaving world := by
  refine ⟨_, rfl, rfl, ?_⟩
  intro law
  rcases law [⟨.created 0, smallItem⟩] rfl ⟨.created 0, smallItem⟩ (List.mem_singleton_self _)
    with ⟨stored, member, -⟩ | ⟨upload, member, -, unfailed⟩
  · cases member
  · cases List.mem_singleton.mp member
    exact unfailed rfl

end CollectionViewWorkshop.CreatedPhotos
