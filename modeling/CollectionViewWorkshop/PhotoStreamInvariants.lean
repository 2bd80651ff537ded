import CollectionViewWorkshop.PhotoStream
import CollectionViewWorkshop.RequestTable

/-!
What holds of the requests, the store and the list in every reachable world.
Each invariant reads only the parts of the world it is about, so an event that
leaves these parts alone keeps it as it stands.
-/

namespace CollectionViewWorkshop.PhotoStreamInvariants

open ObjectiveC ParseService PartialRuns PhotoStream RequestTable StreamItemTransformer

/-- The photo an object stands for: a created item and the object stored for it
are the same photo. -/
inductive Photo where
  | created (item : ℕ)
  | foreign (objectId : ℕ)
  deriving DecidableEq

def storedPhoto (stored : StoredObject) : Photo :=
  match stored.savedFrom with
  | some item => .created item
  | none => .foreign stored.objectId

def photo (ref : ItemRef) : Photo :=
  match ref.origin with
  | .created item => .created item
  | .decoded stored => storedPhoto stored

theorem storedPhoto_created_iff (stored : StoredObject) (item : ℕ) :
    storedPhoto stored = .created item ↔ stored.savedFrom = some item := by
  cases owner : stored.savedFrom <;> simp [storedPhoto, owner]

theorem storedPhoto_foreign (stored : StoredObject) (objectId : ℕ)
    (foreign : storedPhoto stored = .foreign objectId) : stored.objectId = objectId := by
  cases owner : stored.savedFrom <;> simp_all [storedPhoto]

theorem photo_decodedItem (stored : StoredObject) :
    photo (decodedItem stored) = storedPhoto stored := rfl

/-! A property of every item the list shows, and what each callback makes of it. -/

def AllShown (controller : Controller) (holds : ItemRef → Prop) : Prop :=
  ∀ items, controller.streamItems = some items → ∀ ref ∈ items, holds ref

theorem allShown_mono (before after : Controller) (holds kept : ItemRef → Prop)
    (same : after.streamItems = before.streamItems) (mono : ∀ ref, holds ref → kept ref)
    (all : AllShown before holds) : AllShown after kept := by
  intro items isList ref member
  exact mono ref (all items (same ▸ isList) ref member)

theorem allShown_deliver_iff (request : ℕ) (download : Download) (snapshot : Snapshot)
    (world : World) (holds : ItemRef → Prop) :
    AllShown (deliver request download snapshot world).controller holds ↔
      ∀ stored ∈ snapshot.objects, holds (decodedItem stored) := by
  simp [AllShown, deliver_streamItems]

theorem allShown_deliverError (request : ℕ) (download : Download) (error : NSError)
    (world : World) (holds : ItemRef → Prop) :
    AllShown (deliverError request download error world).controller holds := by
  simp [AllShown, deliverError_streamItems]

theorem allShown_appended_iff (item : StreamItem) (world : World) (holds : ItemRef → Prop) :
    AllShown (appended item world).controller holds ↔
      AllShown world.controller holds ∧
        (world.controller.streamItems = none ∨ holds ⟨.created world.created.length, item⟩) := by
  cases isList : world.controller.streamItems with
  | none => simp [AllShown, appended, isList]
  | some items =>
      simp only [AllShown, appended, isList, Option.map_some, Option.some.injEq,
        forall_eq', List.forall_mem_append, List.forall_mem_singleton, reduceCtorEq, false_or]

def snapshotOf : DownloadPhase → Option Snapshot
  | .answered snapshot => some snapshot
  | .delivered snapshot => some snapshot
  | _ => none

def SnapshotsStored (downloads : List Download) (store : Store) : Prop :=
  ∀ download ∈ downloads, ∀ snapshot, snapshotOf download.phase = some snapshot →
    snapshot.objects.Nodup ∧ snapshot.objects ⊆ store.objects

theorem snapshotsStored_save (downloads : List Download) (store : Store)
    (savedFrom : Option ℕ) (object : PFObject) (held : SnapshotsStored downloads store) :
    SnapshotsStored downloads (store.save savedFrom object) := by
  intro download member snapshot taken
  obtain ⟨once, inside⟩ := held download member snapshot taken
  exact ⟨once, fun stored listed => store.subset_save savedFrom object (inside listed)⟩

theorem snapshotsStored_asked (downloads : List Download) (store : Store) (trigger : Trigger)
    (query : PFQuery) (held : SnapshotsStored downloads store) :
    SnapshotsStored (downloads ++ [⟨trigger, query, .waiting⟩]) store := by
  apply all_entered _ downloads _ held
  rintro snapshot ⟨⟩

theorem snapshotsStored_step (event : Event) (before after : World)
    (held : SnapshotsStored before.downloads before.store)
    (taken : step before event = some after) :
    SnapshotsStored after.downloads after.store := by
  cases step_taken before after event taken with
  | viewDidLoad => exact snapshotsStored_asked before.downloads before.store _ _ held
  | didPullToRefresh => exact snapshotsStored_asked before.downloads before.store _ _ held
  | answer request objects download found waiting answers =>
      apply all_settled _ before.downloads request _ held
      rintro snapshot ⟨⟩
      exact ⟨answers.1, answers_subset before.store download.query objects answers⟩
  | deliver request download snapshot found answered =>
      apply all_settled _ before.downloads request _ held
      intro other same
      exact held download (List.mem_of_getElem? found) other (by rw [answered]; exact same)
  | deliverError request error download =>
      apply all_settled _ before.downloads request _ held
      rintro snapshot ⟨⟩
  | commit request upload => exact snapshotsStored_save before.downloads before.store _ _ held
  | otherClientSaves object =>
      exact snapshotsStored_save before.downloads before.store _ _ held
  | refused => exact held
  | appended => exact held
  | started => exact held
  | reportSuccess => exact held
  | reportFailure => exact held
  | tick => exact held

theorem SnapshotsStored.answered {downloads : List Download} {store : Store}
    (held : SnapshotsStored downloads store) (request : ℕ) (download : Download)
    (snapshot : Snapshot) (found : downloads[request]? = some download)
    (answered : download.phase = .answered snapshot) : snapshot.objects ⊆ store.objects :=
  (held download (List.mem_of_getElem? found) snapshot (by rw [answered]; rfl)).2

theorem snapshots_stored (world : World) (reached : machine.Reachable world) :
    SnapshotsStored world.downloads world.store :=
  reachable_invariant machine (fun world => SnapshotsStored world.downloads world.store)
    (by simp [machine, SnapshotsStored]) snapshotsStored_step world reached

/-- The object uploaded is the encoding of the created item it was started for. -/
def UploadOf (created : List StreamItem) (upload : Upload) : Prop :=
  ∃ index item, upload.item = ⟨.created index, item⟩ ∧ created[index]? = some item ∧
    parseObjectFromStreamItem (some item) = .ok upload.object

def CommittedFor (uploads : List Upload) (item : ℕ) : Prop :=
  ∃ upload ∈ uploads, upload.item.origin = .created item ∧ upload.committed = true

-- One upload for each item and one object for each committed upload: the fields
-- need each other when a save commits.
structure UploadsTracked (uploads : List Upload) (created : List StreamItem) (store : Store) :
    Prop where
  started : ∀ upload ∈ uploads, UploadOf created upload
  distinct : (uploads.map fun upload => upload.item.origin).Nodup
  stored : ∀ stored ∈ store.objects, ∀ item, stored.savedFrom = some item →
    CommittedFor uploads item
  photos : (store.objects.map storedPhoto).Nodup

theorem uploadOf_append (created : List StreamItem) (item : StreamItem) (upload : Upload)
    (started : UploadOf created upload) : UploadOf (created ++ [item]) upload := by
  obtain ⟨index, made, same, found, parsed⟩ := started
  have inside := (List.getElem?_eq_some_iff.mp found).1
  exact ⟨index, made, same, by rw [List.getElem?_append_left inside, found], parsed⟩

theorem not_uploaded_yet (created : List StreamItem) (uploads : List Upload)
    (started : ∀ upload ∈ uploads, UploadOf created upload) :
    ∀ upload ∈ uploads, upload.item.origin ≠ .created created.length := by
  intro upload member same
  obtain ⟨index, item, isItem, found, -⟩ := started upload member
  have inside := (List.getElem?_eq_some_iff.mp found).1
  rw [isItem] at same
  cases same
  exact absurd inside (Nat.lt_irrefl _)

theorem UploadsTracked.not_stored_yet {uploads : List Upload} {created : List StreamItem}
    {store : Store} (tracked : UploadsTracked uploads created store) :
    ∀ stored ∈ store.objects, stored.savedFrom ≠ some created.length := by
  intro stored member same
  obtain ⟨upload, inside, origin, -⟩ := tracked.stored stored member created.length same
  exact not_uploaded_yet created uploads tracked.started upload inside origin

theorem UploadsTracked.same_origin {uploads : List Upload} {created : List StreamItem}
    {store : Store} (tracked : UploadsTracked uploads created store) (left right : Upload)
    (leftMember : left ∈ uploads) (rightMember : right ∈ uploads)
    (same : left.item.origin = right.item.origin) : left = right :=
  List.inj_on_of_nodup_map tracked.distinct leftMember rightMember same

theorem UploadsTracked.appended {uploads : List Upload} {created : List StreamItem}
    {store : Store} (tracked : UploadsTracked uploads created store) (item : StreamItem) :
    UploadsTracked uploads (created ++ [item]) store where
  started upload member := uploadOf_append created item upload (tracked.started upload member)
  distinct := tracked.distinct
  stored := tracked.stored
  photos := tracked.photos

theorem UploadsTracked.saving {uploads : List Upload} {created : List StreamItem}
    {store : Store} (tracked : UploadsTracked uploads created store) (item : StreamItem)
    (object : PFObject) (parsed : parseObjectFromStreamItem (some item) = .ok object) :
    UploadsTracked (uploads ++ [⟨⟨.created created.length, item⟩, object, false, none⟩])
      (created ++ [item]) store where
  started := by
    apply all_entered (UploadOf (created ++ [item]))
    · intro upload member
      exact uploadOf_append created item upload (tracked.started upload member)
    · exact ⟨created.length, item, rfl, by simp, parsed⟩
  distinct := keys_entered _ uploads _ tracked.distinct
    (not_uploaded_yet created uploads tracked.started)
  stored stored member index savedFrom := by
    obtain ⟨upload, inside, origin, committed⟩ := tracked.stored stored member index savedFrom
    exact ⟨upload, List.mem_append_left _ inside, origin, committed⟩
  photos := tracked.photos

theorem UploadsTracked.settled {uploads : List Upload} {created : List StreamItem}
    {store : Store} (tracked : UploadsTracked uploads created store) (index : ℕ)
    (old new : Upload) (found : uploads[index]? = some old) (item : new.item = old.item)
    (object : new.object = old.object) (committed : old.committed = true → new.committed = true) :
    UploadsTracked (uploads.set index new) created store where
  started := by
  -- a settled upload keeps its item and its object, and no commit is taken back
    apply all_settled (UploadOf created) uploads index new tracked.started
    have held := tracked.started old (List.mem_of_getElem? found)
    rwa [UploadOf, ← item, ← object] at held
  distinct := by
    rw [map_settled (fun upload => upload.item.origin) uploads index old new found
      (by rw [item])]
    exact tracked.distinct
  stored stored member made savedFrom := by
    apply some_settled _ uploads index old new found
      (tracked.stored stored member made savedFrom)
    rintro ⟨origin, done⟩
    exact ⟨by rw [item, origin], committed done⟩
  photos := tracked.photos

theorem foreign_photo_fresh (store : Store) :
    ∀ stored ∈ store.objects, storedPhoto stored ≠ .foreign store.objects.length := by
  intro stored member same
  have listed := List.mem_map_of_mem (f := StoredObject.objectId) member
  rw [store.numbered, List.mem_range, storedPhoto_foreign stored _ same] at listed
  exact absurd listed (Nat.lt_irrefl _)

theorem UploadsTracked.savedElsewhere {uploads : List Upload} {created : List StreamItem}
    {store : Store} (tracked : UploadsTracked uploads created store) (object : PFObject) :
    UploadsTracked uploads created (store.save none object) where
  started := tracked.started
  distinct := tracked.distinct
  stored stored member index savedFrom := by
    rcases (store.mem_save_iff none object stored).mp member with old | rfl
    · exact tracked.stored stored old index savedFrom
    · cases savedFrom
  photos := keys_entered storedPhoto store.objects _ tracked.photos (foreign_photo_fresh store)

theorem UploadsTracked.committed {uploads : List Upload} {created : List StreamItem}
    {store : Store} (tracked : UploadsTracked uploads created store) (index : ℕ)
    (upload : Upload) (found : uploads[index]? = some upload)
    (uncommitted : upload.committed = false) :
    UploadsTracked (uploads.set index { upload with committed := true }) created
      (store.save (savedFrom upload) upload.object) := by
  have inTable := List.mem_of_getElem? found
  obtain ⟨made, item, isItem, -⟩ := tracked.started upload inTable
  have origin : upload.item.origin = .created made := by rw [isItem]
  have owner : savedFrom upload = some made := by simp [savedFrom, origin]
  have settled := tracked.settled index upload { upload with committed := true } found rfl rfl
    fun _ => rfl
  refine ⟨settled.started, settled.distinct, ?_, ?_⟩
  · intro stored member other savedFrom
    rcases (store.mem_save_iff _ _ stored).mp member with old | rfl
    · exact settled.stored stored old other savedFrom
    · rw [owner] at savedFrom
      -- the new object is the one this commit stored
      cases savedFrom
      exact ⟨_, settled_mem uploads index upload _ found, origin, rfl⟩
  · apply keys_entered storedPhoto store.objects _ tracked.photos
    intro stored member same
    have savedFrom := (storedPhoto_created_iff stored made).mp
      (same.trans ((storedPhoto_created_iff _ made).mpr owner))
    -- an earlier object of this item would come from this upload, committed before
    obtain ⟨other, otherMember, otherOrigin, done⟩ := tracked.stored stored member made savedFrom
    rw [tracked.same_origin other upload otherMember inTable (otherOrigin.trans origin.symm),
      uncommitted] at done
    cases done

theorem uploadsTracked_step (event : Event) (before after : World)
    (held : UploadsTracked before.uploads before.created before.store)
    (taken : step before event = some after) :
    UploadsTracked after.uploads after.created after.store := by
  cases step_taken before after event taken with
  | appended made => exact held.appended made
  | started made object parsed => exact held.saving made object parsed
  | commit request upload found uncommitted =>
      exact held.committed request upload found uncommitted
  | reportSuccess request upload found => exact held.settled request upload _ found rfl rfl id
  | reportFailure request error upload found =>
      exact held.settled request upload _ found rfl rfl id
  | otherClientSaves object => exact held.savedElsewhere object
  | viewDidLoad => exact held
  | didPullToRefresh => exact held
  | answer => exact held
  | deliver => exact held
  | deliverError => exact held
  | refused => exact held
  | tick => exact held

theorem uploads_tracked (world : World) (reached : machine.Reachable world) :
    UploadsTracked world.uploads world.created world.store :=
  reachable_invariant machine
    (fun world => UploadsTracked world.uploads world.created world.store)
    ⟨by simp [machine], by simp [machine], by simp [machine, Store.empty],
      by simp [machine, Store.empty]⟩
    uploadsTracked_step world reached

/-! Where the bytes of the photos come from. -/

/-- What is read from an object the service stores, or an item created here. -/
def Sourced (world : World) (ref : ItemRef) : Prop :=
  match ref.origin with
  | .created item => world.created[item]? = some ref.item
  | .decoded stored =>
      stored ∈ world.store.objects ∧ ref.item = streamItemFromParseObject stored.object

/-- Neither a stored object nor a created item ever goes. -/
theorem step_grows (event : Event) (before after : World)
    (taken : step before event = some after) :
    before.store.objects ⊆ after.store.objects ∧ before.created <+: after.created := by
  cases step_taken before after event taken with
  | appended item => exact ⟨List.Subset.refl _, List.prefix_append _ _⟩
  | started item => exact ⟨List.Subset.refl _, List.prefix_append _ _⟩
  | commit => exact ⟨before.store.subset_save _ _, List.prefix_refl _⟩
  | otherClientSaves => exact ⟨before.store.subset_save _ _, List.prefix_refl _⟩
  | _ => exact ⟨List.Subset.refl _, List.prefix_refl _⟩

theorem sourced_mono (before after : World) (ref : ItemRef)
    (store : before.store.objects ⊆ after.store.objects)
    (created : before.created <+: after.created) (sourced : Sourced before ref) :
    Sourced after ref := by
  unfold Sourced at sourced ⊢
  cases origin : ref.origin with
  | created item =>
      simp only [origin] at sourced ⊢
      obtain ⟨later, same⟩ := created
      rw [← same, List.getElem?_append_left (List.getElem?_eq_some_iff.mp sourced).1]
      exact sourced
  | decoded stored =>
      simp only [origin] at sourced ⊢
      exact ⟨store sourced.1, sourced.2⟩

theorem sourced_step (event : Event) (before after : World)
    (taken : step before event = some after) (ref : ItemRef)
    (sourced : Sourced before ref) : Sourced after ref := by
  obtain ⟨store, created⟩ := step_grows event before after taken
  exact sourced_mono before after ref store created sourced

theorem allSourced_step (event : Event) (before after : World)
    (snapshots : SnapshotsStored before.downloads before.store)
    (sourced : AllShown before.controller (Sourced before))
    (taken : step before event = some after) :
    AllShown after.controller (Sourced after) := by
  have mono := sourced_step event before after taken
  have kept := allShown_mono before.controller before.controller _ _ rfl mono sourced
  cases step_taken before after event taken with
  | deliver request download snapshot found answered =>
      have inside := snapshots.answered request download snapshot found answered
      exact (allShown_deliver_iff ..).mpr fun stored listed => ⟨inside listed, rfl⟩
  | deliverError request error download =>
      exact allShown_deliverError request download error before _
  | appended item =>
      exact (allShown_appended_iff item before _).mpr
        ⟨kept, Or.inr (by simp [Sourced, appended])⟩
  | started item object =>
      exact (allShown_appended_iff item before _).mpr
        ⟨kept, Or.inr (by simp [Sourced, started, appended])⟩
  | _ => exact kept

theorem all_sourced (world : World) (reached : machine.Reachable world) :
    AllShown world.controller (Sourced world) := by
  have both := reachable_invariant machine
    (fun world => SnapshotsStored world.downloads world.store ∧
      AllShown world.controller (Sourced world))
    ⟨snapshots_stored machine.initial (reachable_initial machine), by rintro items ⟨⟩⟩
    (fun event before after held taken =>
      ⟨snapshotsStored_step event before after held.1 taken,
        allSourced_step event before after held.1 held.2 taken⟩)
    world reached
  exact both.2

/-! The stream after a first download of an empty store, where the runs that
break a law start, and an item the creator may hand over. -/

def firstDownload : List Event := [.viewDidLoad, .answer 0 [], .deliver 0]

def emptyStream : World where
  controller := ⟨some [], false⟩
  downloads := [⟨.viewDidLoad, PFQuery.queryWithClassName StreamItem.className,
    .delivered ⟨0, []⟩⟩]
  uploads := []
  store := .empty
  clock := 0
  created := []
  basis := some ⟨0, []⟩
  createdBefore := 0

theorem emptyStream_reached : machine.Reaches firstDownload emptyStream := rfl

def smallItem : StreamItem := ⟨some [255], some "a", ⟨4, 3⟩⟩

end CollectionViewWorkshop.PhotoStreamInvariants
